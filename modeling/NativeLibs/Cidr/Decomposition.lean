/-
This file says which list `CidrRange::exclude` returns. Excluding some ranges
takes a range apart: it goes away when an excluded range contains it, it is split
when it contains one, and it stays otherwise. The loop over the work list then
returns what is left of the sorted originals, one after another.

The loop over the excluded ranges stops at the first comparable one, so that a
range with an excluded range around it and another one inside may be split
before its parts go away. That makes no difference to what is left, and so the
order of the excluded ranges makes none.

At the end the one step is looked at by itself: the two parts of a split range are
its halves.
-/

import NativeLibs.Cidr.Exclude
import NativeLibs.Library.Unfolding

namespace NativeLibs.Cidr

open Library

namespace CidrRange

/-! ### What is left of a range -/

/-- What the loop puts in the place of a range it does not keep. -/
def replacement (excludedRanges : List CidrRange) (range : CidrRange) : Option (List CidrRange) :=
  match verdict range excludedRanges with
  | .skip => some []
  | .split =>
    match range.split with
    | some (left, right) => some [left, right]
    | none => some []
  | .keep => none

/-- A range goes away, is split, or stays; it does what an excluded range asks for. -/
theorem replacement_cases (excludedRanges : List CidrRange) (range : CidrRange) :
    (∃ excluded ∈ excludedRanges, excluded.contains range = true) ∧
        replacement excludedRanges range = some [] ∨
      (∃ excluded ∈ excludedRanges, range.contains excluded = true) ∧
        (∃ left right, range.split = some (left, right) ∧
          replacement excludedRanges range = some [left, right]) ∨
      (∀ excluded ∈ excludedRanges, ¬Meets range excluded) ∧
        replacement excludedRanges range = none := by
  have reason := verdict_spec range excludedRanges
  unfold replacement
  cases decided : verdict range excludedRanges with
  | skip =>
    rw [decided] at reason
    exact Or.inl ⟨reason, rfl⟩
  | split =>
    rw [decided] at reason
    cases parts : range.split with
    | none =>
      -- a single address that contains a range lies in it
      obtain ⟨excluded, -, outside, inner⟩ := reason
      rw [contains_of_single range excluded parts inner] at outside
      cases outside
    | some pair =>
      obtain ⟨excluded, member, -, inner⟩ := reason
      exact Or.inr (Or.inl ⟨⟨excluded, member, inner⟩, pair.1, pair.2, rfl, rfl⟩)
  | keep =>
    rw [decided] at reason
    refine Or.inr (Or.inr ⟨fun excluded member meets => ?_, rfl⟩)
    obtain ⟨notOuter, notInner⟩ := reason excluded member
    rcases nested_of_meets range excluded meets with inner | outer
    · exact Bool.false_ne_true (notInner.symm.trans inner)
    · exact Bool.false_ne_true (notOuter.symm.trans outer)

theorem contains_replacement {excludedRanges children : List CidrRange} {range child : CidrRange}
    (replaced : replacement excludedRanges range = some children) (member : child ∈ children) :
    range.contains child = true := by
  rcases replacement_cases excludedRanges range with
    ⟨-, gone⟩ | ⟨-, left, right, parts, split⟩ | ⟨-, stays⟩
  · cases gone.symm.trans replaced
    exact absurd member List.not_mem_nil
  · cases split.symm.trans replaced
    have inside := contains_split range left right parts
    rcases List.mem_pair.mp member with rfl | rfl
    · exact inside.1
    · exact inside.2
  · cases stays.symm.trans replaced

/-- Excluding some ranges as an unfolding. -/
def excluding (excludedRanges : List CidrRange) : Unfolding CidrRange where
  parts := replacement excludedRanges
  weight := level
  lighter range children replaced child member := by
    rcases replacement_cases excludedRanges range with
      ⟨-, gone⟩ | ⟨-, left, right, parts, split⟩ | ⟨-, stays⟩
    · cases gone.symm.trans replaced
      exact absurd member List.not_mem_nil
    · cases split.symm.trans replaced
      obtain ⟨-, -, lower, same, -, -⟩ := split_some range left right parts
      rcases List.mem_pair.mp member with rfl | rfl
      · exact lower ▸ Nat.lt_succ_self _
      · exact lower ▸ same ▸ Nat.lt_succ_self _
    · cases stays.symm.trans replaced

/-- What is left of a range. -/
def remains (excludedRanges : List CidrRange) (range : CidrRange) : List CidrRange :=
  (excluding excludedRanges).leaves range

theorem excludeLoop_eq (excludedRanges stack done : List CidrRange) :
    excludeLoop excludedRanges stack done = done ++ stack.flatMap (remains excludedRanges) := by
  have apart : ∀ {range : CidrRange} {children : List CidrRange},
      replacement excludedRanges range = some children →
      remains excludedRanges range = children.flatMap (remains excludedRanges) :=
    fun replaced => (excluding excludedRanges).leaves_of_some replaced
  fun_induction excludeLoop excludedRanges stack done with
  | case1 done => exact (List.append_nil done).symm
  | case2 done range stack skipped inductionHypothesis =>
    have gone : replacement excludedRanges range = some [] := by rw [replacement, skipped]
    rw [inductionHypothesis, List.flatMap_cons, apart gone]
    rfl
  | case3 done range stack splits left right parts inductionHypothesis =>
    have split : replacement excludedRanges range = some [left, right] := by
      rw [replacement, splits]
      simp only [parts]
    rw [inductionHypothesis, List.flatMap_cons, List.flatMap_cons, List.flatMap_cons, apart split,
      List.flatMap_cons, List.flatMap_singleton, List.append_assoc]
  | case4 done range stack splits single inductionHypothesis =>
    have gone : replacement excludedRanges range = some [] := by
      rw [replacement, splits]
      simp only [single]
    rw [inductionHypothesis, List.flatMap_cons, apart gone]
    rfl
  | case5 done range stack kept inductionHypothesis =>
    have stays : replacement excludedRanges range = none := by rw [replacement, kept]
    have itself : remains excludedRanges range = [range] :=
      (excluding excludedRanges).leaves_of_none stays
    rw [inductionHypothesis, List.flatMap_cons, itself, List.append_assoc]

/-- The originals in the order in which `exclude` takes them. -/
def sorted (ranges : List CidrRange) : List CidrRange :=
  ranges.mergeSort fun range other => !other.less range

theorem exclude_eq (originalRanges excludedRanges : List CidrRange) :
    exclude originalRanges excludedRanges =
      (sorted originalRanges).flatMap (remains excludedRanges) := by
  rw [exclude, excludeLoop_eq, List.nil_append]
  rfl

/-! ### The order of the excluded ranges -/

theorem remains_of_excluded {excludedRanges : List CidrRange} {excluded : CidrRange}
    (member : excluded ∈ excludedRanges) (range : CidrRange)
    (outer : excluded.contains range = true) : remains excludedRanges range = [] := by
  induction range using (excluding excludedRanges).induct with
  | stays range kept =>
    -- a range that is kept meets no excluded range
    rcases replacement_cases excludedRanges range with ⟨-, gone⟩ | ⟨-, _, _, -, split⟩ | ⟨apart, -⟩
    · cases gone.symm.trans kept
    · cases split.symm.trans kept
    · exact absurd (meets_of_contains excluded range outer).symm (apart excluded member)
  | apart range children replaced inductionHypothesis =>
    rw [remains, (excluding excludedRanges).leaves_of_some replaced, List.flatMap_eq_nil_iff]
    intro child childMember
    exact inductionHypothesis child childMember
      (contains_trans excluded range child outer (contains_replacement replaced childMember))

/-- A range that contains an excluded range leaves what its parts leave, in whichever order the
excluded ranges are looked at. -/
theorem remains_of_split {excludedRanges : List CidrRange} {excluded range left right : CidrRange}
    (member : excluded ∈ excludedRanges) (inner : range.contains excluded = true)
    (parts : range.split = some (left, right)) :
    remains excludedRanges range = [left, right].flatMap (remains excludedRanges) := by
  rcases replacement_cases excludedRanges range with
    ⟨⟨around, aroundMember, outer⟩, -⟩ | ⟨-, first, second, found, split⟩ | ⟨apart, -⟩
  · -- an excluded range around the whole range is around its parts
    have inside := contains_split range left right parts
    rw [remains_of_excluded aroundMember range outer, List.flatMap_cons, List.flatMap_singleton,
      remains_of_excluded aroundMember left (contains_trans _ _ _ outer inside.1),
      remains_of_excluded aroundMember right (contains_trans _ _ _ outer inside.2)]
    rfl
  · cases parts.symm.trans found
    exact (excluding excludedRanges).leaves_of_some split
  · exact absurd (meets_of_contains range excluded inner) (apart excluded member)

theorem remains_of_apart {excludedRanges : List CidrRange} {range : CidrRange}
    (apart : ∀ excluded ∈ excludedRanges, ¬Meets range excluded) :
    remains excludedRanges range = [range] := by
  rcases replacement_cases excludedRanges range with
    ⟨⟨excluded, member, outer⟩, -⟩ | ⟨⟨excluded, member, inner⟩, -⟩ | ⟨-, stays⟩
  · exact absurd (meets_of_contains excluded range outer).symm (apart excluded member)
  · exact absurd (meets_of_contains range excluded inner) (apart excluded member)
  · exact (excluding excludedRanges).leaves_of_none stays

theorem remains_of_replacement {excludedRanges more children : List CidrRange} {range : CidrRange}
    (subset : excludedRanges ⊆ more) (replaced : replacement excludedRanges range = some children) :
    remains more range = children.flatMap (remains more) := by
  rcases replacement_cases excludedRanges range with
    ⟨⟨excluded, member, outer⟩, gone⟩ | ⟨⟨excluded, member, inner⟩, left, right, parts, split⟩ |
      ⟨-, stays⟩
  · cases gone.symm.trans replaced
    exact remains_of_excluded (subset member) range outer
  · cases split.symm.trans replaced
    exact remains_of_split (subset member) inner parts
  · cases stays.symm.trans replaced

theorem apart_of_stays {excludedRanges : List CidrRange} {range : CidrRange}
    (stays : replacement excludedRanges range = none) :
    ∀ excluded ∈ excludedRanges, ¬Meets range excluded := by
  rcases replacement_cases excludedRanges range with ⟨-, gone⟩ | ⟨-, _, _, -, split⟩ | ⟨apart, -⟩
  · cases gone.symm.trans stays
  · cases split.symm.trans stays
  · exact apart

/-- What is left depends only on which ranges are excluded. -/
theorem remains_congr {excludedRanges others : List CidrRange}
    (same : ∀ range, range ∈ excludedRanges ↔ range ∈ others) :
    remains excludedRanges = remains others := by
  funext range
  refine (excluding excludedRanges).leaves_eq_leaves (excluding others) ?_ ?_ range
  · intro range children replaced
    exact remains_of_replacement (fun other => (same other).mp) replaced
  · intro range stays
    exact remains_of_apart fun other member => apart_of_stays stays other ((same other).mpr member)

theorem remains_append_of_apart {first : List CidrRange} (second : List CidrRange)
    {range : CidrRange} (apart : ∀ excluded ∈ first, ¬Meets range excluded) :
    remains (first ++ second) range = remains second range := by
  induction range using (excluding second).induct with
  | stays range kept =>
    rw [remains_of_apart (apart_of_stays kept)]
    refine remains_of_apart fun excluded member => ?_
    exact (List.mem_append.mp member).elim (apart excluded) (apart_of_stays kept excluded)
  | apart range children replaced inductionHypothesis =>
    rw [remains_of_replacement (List.subset_append_right first second) replaced,
      remains_of_replacement (List.Subset.refl second) replaced]
    refine List.flatMap_congr fun child member => inductionHypothesis child member ?_
    intro excluded excludedMember meets
    exact apart excluded excludedMember (meets.of_contains (contains_replacement replaced member))

theorem remains_append (first second : List CidrRange) (range : CidrRange) :
    (remains first range).flatMap (remains second) = remains (first ++ second) range := by
  refine (excluding first).leaves_flatMap_leaves (excluding second) (excluding (first ++ second))
    ?_ ?_ range
  · intro range children replaced
    exact remains_of_replacement (List.subset_append_left first second) replaced
  · intro range stays
    exact remains_append_of_apart second (apart_of_stays stays)

/-- For all lists of ranges, with any overlaps: the result depends only on which ranges are
excluded, not on their order or on repetitions, and excluding some ranges and then others gives
the ranges that excluding all of them gives, up to their order. -/
theorem exclude_composes (originalRanges : List CidrRange) :
    (∀ excludedRanges others : List CidrRange,
      (∀ range, range ∈ excludedRanges ↔ range ∈ others) →
      exclude originalRanges excludedRanges = exclude originalRanges others) ∧
    ∀ first second : List CidrRange,
      (exclude (exclude originalRanges first) second).Perm
        (exclude originalRanges (first ++ second)) := by
  constructor
  · intro excludedRanges others same
    rw [exclude_eq, exclude_eq, remains_congr same]
  · intro first second
    have composed : ((sorted originalRanges).flatMap (remains first)).flatMap (remains second) =
        (sorted originalRanges).flatMap (remains (first ++ second)) := by
      rw [List.flatMap_assoc]
      exact List.flatMap_congr fun range _ => remains_append first second range
    rw [exclude_eq, exclude_eq, exclude_eq, ← composed]
    exact (List.mergeSort_perm _ _).flatMap_right (remains second)

/-- The whole range is excluded before or after a range inside of it, and once or twice. -/
theorem exclude_composes_reordered :
    exclude [.init [10, 0, 0, 0] 7] [.init [10, 1, 0, 0] 16, .init [10, 0, 0, 0] 8] =
      exclude [.init [10, 0, 0, 0] 7]
        [.init [10, 0, 0, 0] 8, .init [10, 1, 0, 0] 16, .init [10, 0, 0, 0] 8] := by
  refine (exclude_composes [.init [10, 0, 0, 0] 7]).1 _ _ fun range => ?_
  simp only [List.mem_cons, List.not_mem_nil, or_false]
  tauto

/-! ### The result in order -/

/-- A range ends before another one begins; shorter addresses come first. -/
def Precedes (range other : CidrRange) : Prop :=
  range.size < other.size ∨
    range.size = other.size ∧ range.point + 2 ^ range.level ≤ other.point

theorem Precedes.less {range other : CidrRange} (before : Precedes range other) :
    range.less other = true := by
  have positive := Nat.two_pow_pos range.level
  unfold Precedes at before
  rw [less_iff]
  omega

theorem Precedes.not_meets {range other : CidrRange} (before : Precedes range other) :
    ¬Meets range other := by
  intro ⟨address, inRange, inOther⟩
  rw [containsAddress_iff, mem_block_of_aligned _ _ _ (aligned _)] at inRange inOther
  unfold Precedes at before
  omega

theorem precedes_of_not_less {range other : CidrRange} (notAbove : other.less range = false)
    (apart : ¬Meets range other) : Precedes range other := by
  have notAbove := Bool.eq_false_iff.mp notAbove
  rw [ne_eq, less_iff] at notAbove
  unfold Precedes
  by_contra notBefore
  have sameSize : other.size = range.size := by omega
  refine apart ⟨other.address, (containsAddress_iff _ _).mpr ⟨sameSize, ?_⟩,
    other.containsAddress_self⟩
  rw [mem_block_of_aligned _ _ _ range.aligned]
  show range.point ≤ other.point ∧ other.point < _
  omega

theorem contains_bounds {outer range : CidrRange} (inner : outer.contains range = true) :
    outer.point ≤ range.point ∧ range.point + 2 ^ range.level ≤ outer.point + 2 ^ outer.level := by
  obtain ⟨sameSize, shorter, member⟩ := (contains_iff _ _).mp inner
  have positive := Nat.two_pow_pos range.level
  have last : range.point + 2 ^ range.level - 1 ∈ block outer.level outer.point := by
    rw [← block_eq_of_mem _ _ _ member]
    refine block_subset_block _ _ _ (level_le_level outer range sameSize.symm shorter) ?_
    rw [mem_block_of_aligned _ _ _ range.aligned]
    omega
  rw [mem_block_of_aligned _ _ _ outer.aligned] at member last
  omega

theorem Precedes.of_contains {outer otherOuter range other : CidrRange}
    (before : Precedes outer otherOuter) (inner : outer.contains range = true)
    (otherInner : otherOuter.contains other = true) : Precedes range other := by
  have sameSize := ((contains_iff _ _).mp inner).1
  have otherSameSize := ((contains_iff _ _).mp otherInner).1
  have bounds := contains_bounds inner
  have otherBounds := contains_bounds otherInner
  unfold Precedes at before ⊢
  omega

theorem contains_remains {excludedRanges : List CidrRange} {range piece : CidrRange}
    (member : piece ∈ remains excludedRanges range) : range.contains piece = true := by
  refine (excluding excludedRanges).related_leaves (fun range piece => range.contains piece = true)
    (fun range _ => ?_) ?_ range piece member
  · exact contains_of_addresses range range rfl fun _ inside => inside
  · intro range children replaced child childMember leaf inner
    exact contains_trans range child leaf (contains_replacement replaced childMember) inner

theorem Precedes.remains {excludedRanges : List CidrRange} {range other : CidrRange}
    (before : Precedes range other) :
    ∀ piece ∈ remains excludedRanges range, ∀ otherPiece ∈ remains excludedRanges other,
      Precedes piece otherPiece := fun _ member _ otherMember =>
  before.of_contains (contains_remains member) (contains_remains otherMember)

theorem precedes_of_split {range left right : CidrRange}
    (parts : range.split = some (left, right)) : Precedes left right := by
  obtain ⟨leftSize, rightSize, -, -, leftPoint, rightPoint⟩ := split_some range left right parts
  refine .inr ⟨leftSize.trans rightSize.symm, ?_⟩
  rw [leftPoint, rightPoint]

theorem remains_pairwise (excludedRanges : List CidrRange) (range : CidrRange) :
    (remains excludedRanges range).Pairwise Precedes := by
  refine (excluding excludedRanges).pairwise_leaves ?_ (fun _ _ before => before.remains) range
  intro range children replaced
  rcases replacement_cases excludedRanges range with
    ⟨-, gone⟩ | ⟨-, left, right, parts, split⟩ | ⟨-, stays⟩
  · cases gone.symm.trans replaced
    exact List.Pairwise.nil
  · cases split.symm.trans replaced
    exact List.pairwise_pair.mpr (precedes_of_split parts)
  · cases stays.symm.trans replaced

theorem sorted_pairwise {ranges : List CidrRange}
    (disjoint : ranges.Pairwise fun range other => ¬Meets range other) :
    (sorted ranges).Pairwise Precedes := by
  have transitive : ∀ first second third : CidrRange, (!second.less first) = true →
      (!third.less second) = true → (!third.less first) = true := by
    intro first second third lower upper
    rw [Bool.not_eq_true', Bool.eq_false_iff, ne_eq, less_iff] at lower upper ⊢
    omega
  have total : ∀ range other : CidrRange, (!other.less range || !range.less other) = true := by
    intro range other
    cases below : other.less range with
    | false => rfl
    | true => rw [less_asymm other range below]; rfl
  have ordered := List.pairwise_mergeSort transitive total ranges
  have apart := (List.mergeSort_perm ranges fun range other => !other.less range).symm.pairwise
    disjoint fun notMeets meets => notMeets meets.symm
  refine (ordered.and apart).imp fun both => ?_
  exact precedes_of_not_less (Bool.not_eq_true' _ |>.mp both.1) both.2

theorem exclude_pairwise {originalRanges : List CidrRange}
    (disjoint : originalRanges.Pairwise fun range other => ¬Meets range other)
    (excludedRanges : List CidrRange) :
    (exclude originalRanges excludedRanges).Pairwise Precedes := by
  rw [exclude_eq]
  refine List.pairwise_flatMap.mpr ⟨fun range _ => remains_pairwise excludedRanges range, ?_⟩
  exact (sorted_pairwise disjoint).imp Precedes.remains

/-! ### The result cannot be coarsened -/

/-- The block with one prefix bit less. -/
def parent (range : CidrRange) : CidrRange := init range.address (range.prefixLen - 1)

theorem parent_spec (range : CidrRange) (several : 0 < range.prefixLen) :
    range.parent.prefixLen + 1 = range.prefixLen ∧ range.parent.contains range = true := by
  obtain ⟨sameSize, shorter, start⟩ := init_spec range.address (range.prefixLen - 1)
    ((Nat.sub_le _ _).trans range.fits_bits)
  have level : range.parent.level = openBits range.size (range.prefixLen - 1) := by
    rw [CidrRange.level, parent, sameSize, shorter]
    rfl
  refine ⟨?_, (contains_iff _ _).mpr ⟨sameSize.symm, ?_, ?_⟩⟩
  · rw [parent, shorter]
    exact Nat.sub_add_cancel several
  · rw [parent, shorter]
    exact Nat.sub_le _ _
  · rw [mem_block, level, parent, start]
    exact (Nat.mul_div_cancel _ (Nat.two_pow_pos _)).symm

/-- The next coarser block meets an excluded range. -/
def Tight (excludedRanges : List CidrRange) (range : CidrRange) : Prop :=
  0 < range.prefixLen ∧ range.parent.prefixLen + 1 = range.prefixLen ∧
    range.parent.contains range = true ∧
    ∃ excluded ∈ excludedRanges, Meets range.parent excluded

theorem tight_of_split {excludedRanges : List CidrRange} {excluded range child : CidrRange}
    (member : excluded ∈ excludedRanges) (inner : range.contains excluded = true)
    (inside : range.contains child = true) (longer : child.prefixLen = range.prefixLen + 1) :
    Tight excludedRanges child := by
  have positive : 0 < child.prefixLen := longer ▸ Nat.succ_pos _
  obtain ⟨shorter, around⟩ := child.parent_spec positive
  refine ⟨positive, shorter, around, excluded, member, ?_⟩
  -- the parent has the prefix length of the range and an address in common with it
  have same : child.parent.prefixLen ≤ range.prefixLen := by omega
  have covers := contains_of_common child.parent range child.address same
    (containsAddress_of_contains _ _ _ around child.containsAddress_self)
    (containsAddress_of_contains _ _ _ inside child.containsAddress_self)
  exact (meets_of_contains range excluded inner).of_contains covers

theorem remains_tight {excludedRanges : List CidrRange} {range piece : CidrRange}
    (member : piece ∈ remains excludedRanges range) :
    piece = range ∨ Tight excludedRanges piece := by
  refine (excluding excludedRanges).related_leaves
    (fun range piece => piece = range ∨ Tight excludedRanges piece) (fun _ _ => Or.inl rfl) ?_ range
    piece member
  intro range children replaced child childMember leaf either
  refine Or.inr (either.elim (fun same => same ▸ ?_) id)
  rcases replacement_cases excludedRanges range with
    ⟨-, gone⟩ | ⟨⟨excluded, excludedMember, inner⟩, left, right, parts, split⟩ | ⟨-, stays⟩
  · cases gone.symm.trans replaced
    exact absurd childMember List.not_mem_nil
  · cases split.symm.trans replaced
    refine tight_of_split excludedMember inner (contains_replacement replaced childMember) ?_
    obtain ⟨leftPrefix, rightPrefix⟩ := split_prefixLen range left right parts
    rcases List.mem_pair.mp childMember with rfl | rfl
    · exact leftPrefix
    · exact rightPrefix
  · cases stays.symm.trans replaced

/-- For all originals no two of which meet and all excluded ranges: the result is strictly
ascending, no two of its ranges meet, and each of them is an original, or the block with one prefix
bit less that contains it meets an excluded range. -/
theorem exclude_canonical (originalRanges excludedRanges : List CidrRange)
    (disjoint : originalRanges.Pairwise fun range other => ¬Meets range other) :
    ((exclude originalRanges excludedRanges).Pairwise fun range other =>
      range.less other = true) ∧
    ((exclude originalRanges excludedRanges).Pairwise fun range other => ¬Meets range other) ∧
    ∀ range ∈ exclude originalRanges excludedRanges,
      range ∈ originalRanges ∨ Tight excludedRanges range := by
  have ordered := exclude_pairwise disjoint excludedRanges
  refine ⟨ordered.imp Precedes.less, ordered.imp Precedes.not_meets, fun piece member => ?_⟩
  rw [exclude_eq] at member
  obtain ⟨range, rangeMember, pieceMember⟩ := List.mem_flatMap.mp member
  refine (remains_tight pieceMember).imp_left fun same => ?_
  rw [same]
  exact List.mem_mergeSort.mp rangeMember

/-- Two ranges of which one is split. -/
theorem exclude_canonical_split :
    ((exclude [.init [192, 168, 0, 0] 16, .init [10, 0, 0, 0] 8] [.init [10, 1, 0, 0] 16]).Pairwise
      fun range other => range.less other = true) ∧
    ∀ range ∈ exclude [.init [192, 168, 0, 0] 16, .init [10, 0, 0, 0] 8] [.init [10, 1, 0, 0] 16],
      range ∈ [CidrRange.init [192, 168, 0, 0] 16, .init [10, 0, 0, 0] 8] ∨
        Tight [.init [10, 1, 0, 0] 16] range := by
  have apart : ¬Meets (.init [192, 168, 0, 0] 16) (.init [10, 0, 0, 0] 8) := fun meets =>
    (nested_of_meets _ _ meets).elim (by decide) (by decide)
  obtain ⟨ascending, -, coarse⟩ := exclude_canonical
    [.init [192, 168, 0, 0] 16, .init [10, 0, 0, 0] 8] [.init [10, 1, 0, 0] 16]
    (List.pairwise_pair.mpr apart)
  exact ⟨ascending, coarse⟩

/-! ### The two halves of a range -/

/-- What `init` makes of a prefix length that fits is valid. -/
theorem valid_init {address : Bytes} {prefixLen : ℕ} (fits : prefixLen ≤ address.length * 8) :
    (init address prefixLen).valid = true := by
  rw [init, dif_neg (Nat.not_lt.mpr fits)]
  rfl

theorem valid_split {range left right : CidrRange} (parts : range.split = some (left, right)) :
    left.valid = true ∧ right.valid = true := by
  have several := several_of_split parts
  have inside : range.prefixLen + 1 ≤ range.address.length * 8 := lt_of_le_of_ne range.fits several
  rw [split, if_neg several] at parts
  obtain ⟨rfl, rfl⟩ := Prod.mk.inj (Option.some.inj parts)
  refine ⟨valid_init inside, valid_init ?_⟩
  rw [List.length_modify]
  exact inside

theorem split_eq_none_iff (range : CidrRange) : range.split = none ↔ range.level = 0 := by
  by_cases single : range.prefixLen = range.address.length * 8
  · rw [split, if_pos single, level, openBits, size, single, Nat.mul_comm, Nat.sub_self]
    exact iff_of_true rfl rfl
  · obtain ⟨left, right, parts, -, -, -, -, lower, -⟩ := range.split_spec single
    rw [parts, lower]
    exact iff_of_false (Option.some_ne_none _) (Nat.succ_ne_zero _)

theorem containsAddress_iff_of_level_zero {range : CidrRange} (single : range.level = 0)
    (address : Bytes) : range.containsAddress address = true ↔ address = range.address := by
  rw [containsAddress_iff, single, mem_block, pow_zero, Nat.div_one, Nat.div_one]
  constructor
  · rintro ⟨sameSize, sameValue⟩
    exact address_eq_of_value _ _ sameSize sameValue
  · rintro rfl
    exact ⟨rfl, rfl⟩

/-- Two ranges that part a range at its first open bit. -/
structure Halves (range left right : CidrRange) : Prop where
  leftValid : left.valid = true
  rightValid : right.valid = true
  leftPrefix : left.prefixLen = range.prefixLen + 1
  rightPrefix : right.prefixLen = range.prefixLen + 1
  ordered : left.less right = true
  disjoint : ∀ address, ¬(left.containsAddress address = true ∧
    right.containsAddress address = true)
  leftInside : range.contains left = true
  rightInside : range.contains right = true
  together : ∀ address, range.containsAddress address = true ↔
    left.containsAddress address = true ∨ right.containsAddress address = true

theorem halves_of_split {range left right : CidrRange}
    (parts : range.split = some (left, right)) : Halves range left right := by
  obtain ⟨leftValid, rightValid⟩ := valid_split parts
  obtain ⟨leftPrefix, rightPrefix⟩ := split_prefixLen range left right parts
  obtain ⟨leftInside, rightInside⟩ := contains_split range left right parts
  have before := precedes_of_split parts
  exact {
    leftValid := leftValid
    rightValid := rightValid
    leftPrefix := leftPrefix
    rightPrefix := rightPrefix
    ordered := before.less
    disjoint := fun address both => before.not_meets ⟨address, both⟩
    leftInside := leftInside
    rightInside := rightInside
    together := fun address => containsAddress_split range left right address parts }

theorem Halves.not_existsUnique {range left right : CidrRange} (halves : Halves range left right) :
    ¬∃! address, range.containsAddress address = true := by
  intro single
  have same := single.unique
    ((halves.together left.address).mpr (.inl left.containsAddress_self))
    ((halves.together right.address).mpr (.inr right.containsAddress_self))
  refine halves.disjoint left.address ⟨left.containsAddress_self, ?_⟩
  rw [same]
  exact right.containsAddress_self

/-- For every range: it is not split exactly if it has a single address, and otherwise it is split
into its two halves. -/
theorem split_partitions (range : CidrRange) :
    (range.split = none ↔ ∃! address, range.containsAddress address = true) ∧
      (range.split ≠ none → ∃ left right, range.split = some (left, right) ∧
        Halves range left right) := by
  cases parts : range.split with
  | none =>
    have single := (split_eq_none_iff range).mp parts
    refine ⟨iff_of_true rfl ?_, fun impossible => absurd rfl impossible⟩
    exact ⟨range.address, range.containsAddress_self,
      fun other => (containsAddress_iff_of_level_zero single other).mp⟩
  | some pair =>
    obtain ⟨left, right⟩ := pair
    have halves := halves_of_split parts
    exact ⟨iff_of_false (Option.some_ne_none _) halves.not_existsUnique,
      fun _ => ⟨left, right, rfl, halves⟩⟩

/-- A range in the middle of a byte. -/
theorem split_partitions_middle :
    (CidrRange.init [10, 64, 0, 0] 11).split ≠ none ∧
      ∃ left right, (CidrRange.init [10, 64, 0, 0] 11).split = some (left, right) ∧
        Halves (.init [10, 64, 0, 0] 11) left right :=
  ⟨by decide, (split_partitions (.init [10, 64, 0, 0] 11)).2 (by decide)⟩

end CidrRange

end NativeLibs.Cidr
