/-
This file embeds `CidrRangeSet` of `common/cidr_range.h`: a `std::multiset` of
ranges under a comparison, `ModifiedLess`, that puts nested ranges level. That
comparison is not a strict weak order, so the search of the multiset promises
nothing for arbitrary contents. It does for the contents `insert` leaves: ranges
in the order of `operator<`, none of which contains another.

What lies between a range and a range it contains, in the order of `operator<`,
is contained in the first (`contains_between`). With it the stored ranges are
partitioned for every probe, the search finds exactly the ranges comparable with
the probe, and the loop of `insert`, which does not advance past an incomparable
range, never meets one.
-/

import NativeLibs.Cidr.Order
import NativeLibs.Library.EqualRange
import NativeLibs.Library.Runs

namespace NativeLibs.Cidr

open Library

namespace CidrRangeSet

/-! ### The set -/

/-- `CidrRangeSet::ModifiedLess`. -/
def modifiedLess (lhs rhs : CidrRange) : Bool := lhs.less rhs && !lhs.contains rhs

/-- The loop of `CidrRangeSet::insert` over the equal range: whether it ran to the end, and the
ranges it left there. It erases a range it can skip, and stays at one that is incomparable. -/
def insertLoop (range : CidrRange) : Nat → List CidrRange → Option (Bool × List CidrRange)
  | 0, _ => none
  | _ + 1, [] => some (true, [])
  | fuel + 1, stored :: rest =>
    if range.contains stored then insertLoop range fuel rest
    else if stored.contains range then some (false, stored :: rest)
    else insertLoop range fuel (stored :: rest)

variable (equalRange : EqualRange modifiedLess)

/-- `CidrRangeSet::insert`: its result and the set after it. The hint of `m_set.insert` is the end
of the equal range, and the new range goes right before it. -/
def insert (fuel : Nat) (set : List CidrRange) (range : CidrRange) :
    Option (Bool × List CidrRange) :=
  let (before, equal, after) := equalRange.find set range
  match insertLoop range fuel equal with
  | none => none
  | some (false, left) => some (false, before ++ (left ++ after))
  | some (true, left) => some (true, before ++ (left ++ range :: after))

/-- `CidrRangeSet::includes`. -/
def includes (set : List CidrRange) (range : CidrRange) : Bool :=
  (equalRange.find set range).2.1.any fun stored => stored.contains range

/-- The calls that change a set. -/
inductive Operation where
  | insert (range : CidrRange)
  | clear

/-- One call on a set; `CidrRangeSet::clear` leaves nothing. -/
def step (fuel : Nat) (set : List CidrRange) : Operation → Option (List CidrRange)
  | .insert range => (insert equalRange fuel set range).map Prod.snd
  | .clear => some []

/-! ### The ranges comparable with a probe -/

theorem modifiedLess_iff (lhs rhs : CidrRange) :
    modifiedLess lhs rhs = true ↔ lhs.less rhs = true ∧ lhs.contains rhs = false := by
  rw [modifiedLess, Bool.and_eq_true, Bool.not_eq_true']

theorem equivalent_iff (probe element : CidrRange) :
    equivalent modifiedLess probe element = true ↔
      element.contains probe = true ∨ probe.contains element = true := by
  rw [equivalent, Bool.and_eq_true, Bool.not_eq_true', Bool.not_eq_true', Bool.eq_false_iff,
    Bool.eq_false_iff, ne_eq, ne_eq, modifiedLess_iff, modifiedLess_iff]
  constructor
  · rintro ⟨notBelow, notAbove⟩
    by_contra apart
    rw [not_or, Bool.not_eq_true, Bool.not_eq_true] at apart
    have below : element.less probe = false :=
      Bool.eq_false_iff.mpr fun below => notBelow ⟨below, apart.1⟩
    have above : probe.less element = false :=
      Bool.eq_false_iff.mpr fun above => notAbove ⟨above, apart.2⟩
    rw [CidrRange.contains_of_not_less element probe below above] at apart
    cases apart.1
  · rintro (outer | inner)
    · have notAbove := CidrRange.not_less_of_contains element probe outer
      exact ⟨fun below => Bool.false_ne_true (below.2.symm.trans outer),
        fun above => Bool.false_ne_true (notAbove.symm.trans above.1)⟩
    · have notBelow := CidrRange.not_less_of_contains probe element inner
      exact ⟨fun below => Bool.false_ne_true (notBelow.symm.trans below.1),
        fun above => Bool.false_ne_true (above.2.symm.trans inner)⟩

/-- What `insert` keeps: the ranges are in order, and none contains a later one. -/
def Stored (set : List CidrRange) : Prop :=
  set.Pairwise fun first second => modifiedLess first second = true

theorem Stored.antichain {set : List CidrRange} (stored : Stored set) :
    set.Pairwise fun first second =>
      first.contains second = false ∧ second.contains first = false := by
  refine stored.imp fun {first second} before => ?_
  obtain ⟨below, outside⟩ := (modifiedLess_iff first second).mp before
  refine ⟨outside, Bool.eq_false_iff.mpr fun inside => ?_⟩
  exact Bool.false_ne_true ((CidrRange.not_less_of_contains second first inside).symm.trans below)

theorem Stored.eq_of_contains {set : List CidrRange} (stored : Stored set)
    {outer inner : CidrRange} (outerMember : outer ∈ set) (innerMember : inner ∈ set)
    (nested : outer.contains inner = true) : outer = inner := by
  by_contra different
  have symmetric : Std.Symm fun first second : CidrRange =>
      first.contains second = false ∧ second.contains first = false := ⟨fun _ _ => And.symm⟩
  have apart := stored.antichain.forall outerMember innerMember different
  exact Bool.false_ne_true (apart.1.symm.trans nested)

/-- Three ranges in order: the first is below the third. -/
theorem modifiedLess_trans (first second third : CidrRange)
    (lower : modifiedLess first second = true) (upper : modifiedLess second third = true) :
    modifiedLess first third = true := by
  rw [modifiedLess_iff] at lower upper ⊢
  refine ⟨CidrRange.less_trans _ _ _ lower.1 upper.1, Bool.eq_false_iff.mpr fun nested => ?_⟩
  have between := CidrRange.contains_between first second third nested lower.1 upper.1
  exact Bool.false_ne_true (lower.2.symm.trans between)

theorem Stored.partitioned {set : List CidrRange} (stored : Stored set) (probe : CidrRange) :
    Partitioned modifiedLess set probe := by
  refine partitioned_of_pairwise modifiedLess set probe (fun element below => ?_) ?_
  · refine Bool.eq_false_iff.mpr fun above => ?_
    have asymmetric := CidrRange.less_asymm _ _ ((modifiedLess_iff _ _).mp below).1
    exact Bool.false_ne_true (asymmetric.symm.trans ((modifiedLess_iff _ _).mp above).1)
  · exact stored.imp fun {first second} before =>
      ⟨modifiedLess_trans first second probe before, fun above =>
        modifiedLess_trans probe first second above before⟩

/-! ### One call -/

/-- Some range of a list contains the given one. -/
def Included (ranges : List CidrRange) (range : CidrRange) : Prop :=
  ∃ stored ∈ ranges, stored.contains range = true

/-- `includes` looks at the equal range only, and misses nothing. -/
theorem includes_iff {set : List CidrRange} (stored : Stored set) (range : CidrRange) :
    includes equalRange set range = true ↔ Included set range := by
  rw [includes, equalRange.spec set range (stored.partitioned range), List.any_eq_true]
  constructor
  · rintro ⟨outer, member, contained⟩
    exact ⟨outer, (List.mem_filter.mp member).1, contained⟩
  · rintro ⟨outer, member, contained⟩
    exact ⟨outer, List.mem_filter.mpr ⟨member, (equivalent_iff _ _).mpr (Or.inl contained)⟩,
      contained⟩

theorem insertLoop_inside (range : CidrRange) (fuel : ℕ) (equal : List CidrRange)
    (enough : equal.length < fuel) (inside : ∀ stored ∈ equal, range.contains stored = true) :
    insertLoop range fuel equal = some (true, []) := by
  induction equal generalizing fuel with
  | nil =>
    obtain ⟨fuel, rfl⟩ := Nat.exists_eq_add_one.mpr enough
    rfl
  | cons stored rest inductionHypothesis =>
    obtain ⟨fuel, rfl⟩ := Nat.exists_eq_add_one.mpr (Nat.zero_lt_of_lt enough)
    rw [insertLoop, if_pos (inside stored List.mem_cons_self)]
    exact inductionHypothesis fuel (Nat.lt_of_succ_lt_succ enough) fun other member =>
      inside other (List.mem_cons_of_mem _ member)

/-- The ranges after an insertion: those below the new range, the new range, those above. -/
def inserted (set : List CidrRange) (range : CidrRange) : List CidrRange :=
  set.filter (fun stored => modifiedLess stored range) ++ range :: set.filter (modifiedLess range)

/-- A call of `insert` on stored ranges returns: it leaves a set that has a larger range as it is,
and puts the new range in the place of all that it contains otherwise. -/
theorem insert_spec {set : List CidrRange} (stored : Stored set) (range : CidrRange) (fuel : ℕ)
    (enough : set.length < fuel) :
    (∃ outer ∈ set, outer.contains range = true ∧ range.contains outer = false) ∧
        insert equalRange fuel set range = some (false, set) ∨
      (∀ outer ∈ set, outer.contains range = true → range.contains outer = true) ∧
        insert equalRange fuel set range = some (true, inserted set range) := by
  have parts := equalRange.parts set range
  have found := equalRange.spec set range (stored.partitioned range)
  rw [found] at parts
  rw [insert, found]
  by_cases larger : ∃ outer ∈ set, outer.contains range = true ∧ range.contains outer = false
  · obtain ⟨outer, outerMember, contained, notInside⟩ := larger
    refine Or.inl ⟨⟨outer, outerMember, contained, notInside⟩, ?_⟩
    have outerFound : outer ∈ set.filter (equivalent modifiedLess range) :=
      List.mem_filter.mpr ⟨outerMember, (equivalent_iff _ _).mpr (Or.inl contained)⟩
    -- whatever the loop meets first contains the new range
    cases equal : set.filter (equivalent modifiedLess range) with
    | nil =>
      rw [equal] at outerFound
      exact absurd outerFound List.not_mem_nil
    | cons first rest =>
      have firstFound : first ∈ set.filter (equivalent modifiedLess range) :=
        equal ▸ List.mem_cons_self
      obtain ⟨firstMember, comparable⟩ := List.mem_filter.mp firstFound
      have firstOutside : ¬range.contains first = true := by
        intro inside
        have nested := CidrRange.contains_trans outer range first contained inside
        have same := stored.eq_of_contains outerMember firstMember nested
        exact Bool.false_ne_true (notInside.symm.trans (same ▸ inside))
      have firstOuter := ((equivalent_iff _ _).mp comparable).resolve_right firstOutside
      obtain ⟨fuel, rfl⟩ := Nat.exists_eq_add_one.mpr (Nat.zero_lt_of_lt enough)
      rw [equal] at parts
      simp only [insertLoop, if_neg firstOutside, if_pos firstOuter]
      rw [parts]
  · have replaced : ∀ outer ∈ set, outer.contains range = true → range.contains outer = true := by
      intro outer member contained
      by_contra notInside
      exact larger ⟨outer, member, contained, Bool.eq_false_iff.mpr notInside⟩
    refine Or.inr ⟨replaced, ?_⟩
    have inside : ∀ outer ∈ set.filter (equivalent modifiedLess range),
        range.contains outer = true := by
      intro outer member
      obtain ⟨outerMember, comparable⟩ := List.mem_filter.mp member
      exact ((equivalent_iff _ _).mp comparable).elim (replaced outer outerMember) id
    have short := lt_of_le_of_lt (List.length_filter_le (equivalent modifiedLess range) set) enough
    simp only [insertLoop_inside range fuel _ short inside]
    rfl

theorem stored_inserted {set : List CidrRange} (stored : Stored set) (range : CidrRange) :
    Stored (inserted set range) := by
  have belowRange : ∀ first ∈ set.filter (fun stored => modifiedLess stored range),
      modifiedLess first range = true := fun first member => (List.mem_filter.mp member).2
  have aboveRange : ∀ second ∈ set.filter (modifiedLess range),
      modifiedLess range second = true := fun second member => (List.mem_filter.mp member).2
  refine List.pairwise_append.mpr ⟨stored.sublist List.filter_sublist,
    List.pairwise_cons.mpr ⟨aboveRange, stored.sublist List.filter_sublist⟩, ?_⟩
  intro first firstMember second secondMember
  rcases List.mem_cons.mp secondMember with rfl | above
  · exact belowRange first firstMember
  · exact modifiedLess_trans first range second (belowRange first firstMember)
      (aboveRange second above)

theorem included_inserted (set : List CidrRange) (range : CidrRange)
    (replaced : ∀ outer ∈ set, outer.contains range = true → range.contains outer = true)
    (probe : CidrRange) :
    Included (inserted set range) probe ↔ Included set probe ∨ range.contains probe = true := by
  constructor
  · rintro ⟨outer, member, contained⟩
    rcases List.mem_append.mp member with below | rest
    · exact Or.inl ⟨outer, (List.mem_filter.mp below).1, contained⟩
    · rcases List.mem_cons.mp rest with rfl | above
      · exact Or.inr contained
      · exact Or.inl ⟨outer, (List.mem_filter.mp above).1, contained⟩
  · have new : range ∈ inserted set range := List.mem_append_right _ List.mem_cons_self
    rintro (⟨outer, member, contained⟩ | contained)
    · by_cases below : modifiedLess outer range = true
      · exact ⟨outer, List.mem_append_left _ (List.mem_filter.mpr ⟨member, below⟩), contained⟩
      by_cases above : modifiedLess range outer = true
      · exact ⟨outer, List.mem_append_right _ (List.mem_cons_of_mem _
          (List.mem_filter.mpr ⟨member, above⟩)), contained⟩
      have comparable : equivalent modifiedLess range outer = true := by
        rw [equivalent, Bool.eq_false_iff.mpr below, Bool.eq_false_iff.mpr above]
        rfl
      have inside := ((equivalent_iff _ _).mp comparable).elim (replaced outer member) id
      exact ⟨range, new, CidrRange.contains_trans _ _ _ inside contained⟩
    · exact ⟨range, new, contained⟩

theorem length_inserted_le {set : List CidrRange} (stored : Stored set) (range : CidrRange) :
    (inserted set range).length ≤ set.length + 1 := by
  have whole := congrArg List.length (stored.partitioned range).parts
  rw [List.length_append, List.length_append] at whole
  rw [inserted, List.length_append, List.length_cons]
  omega

/-! ### Whole runs -/

/-- The ranges inserted since the last call of `clear`. -/
def insertedSince (ranges : List CidrRange) : Operation → List CidrRange
  | .insert range => range :: ranges
  | .clear => []

/-- A set stands for a list of ranges: it includes what they include. -/
structure Represents (set ranges : List CidrRange) : Prop where
  stored : Stored set
  included : ∀ probe, Included set probe ↔ Included ranges probe

/-- One call takes a set that stands for some ranges to one that stands for the new ones. -/
theorem step_represents {set ranges : List CidrRange} (represents : Represents set ranges)
    (operation : Operation) (fuel : ℕ) (enough : set.length < fuel) :
    ∃ next, step equalRange fuel set operation = some next ∧
      Represents next (insertedSince ranges operation) ∧ next.length ≤ set.length + 1 := by
  cases operation with
  | clear =>
    exact ⟨[], rfl, ⟨List.Pairwise.nil, fun _ => Iff.rfl⟩, Nat.zero_le _⟩
  | insert range =>
    have cons : ∀ probe, Included (range :: ranges) probe ↔
        range.contains probe = true ∨ Included ranges probe :=
      fun probe => List.exists_mem_cons_iff ..
    rcases insert_spec equalRange represents.stored range fuel enough with
      ⟨⟨outer, member, larger, -⟩, result⟩ | ⟨replaced, result⟩
    · refine ⟨set, by rw [step, result, Option.map_some], ⟨represents.stored, fun probe => ?_⟩,
        Nat.le_succ _⟩
      have already : range.contains probe = true → Included set probe := fun contained =>
        ⟨outer, member, CidrRange.contains_trans _ _ _ larger contained⟩
      rw [insertedSince, cons, ← represents.included probe]
      exact (or_iff_right_of_imp already).symm
    · refine ⟨inserted set range, by rw [step, result, Option.map_some],
        ⟨stored_inserted represents.stored range, fun probe => ?_⟩,
        length_inserted_le represents.stored range⟩
      rw [included_inserted set range replaced, insertedSince, cons, ← represents.included probe]
      exact or_comm

/-- A run never gets stuck in an insertion, and the set goes on standing for the ranges. -/
theorem run_represents (operations : List Operation) {set ranges : List CidrRange}
    (represents : Represents set ranges) (fuel : ℕ)
    (enough : set.length + operations.length < fuel) :
    ∃ final, run (step equalRange fuel) set operations = some final ∧
      Represents final (operations.foldl insertedSince ranges) ∧ final.length < fuel := by
  induction operations generalizing set ranges with
  | nil => exact ⟨set, rfl, represents, enough⟩
  | cons operation rest inductionHypothesis =>
    rw [List.length_cons] at enough
    obtain ⟨next, stepped, nextRepresents, growth⟩ :=
      step_represents equalRange represents operation fuel (by omega)
    rw [run, stepped, Option.bind_some, List.foldl_cons]
    exact inductionHypothesis nextRepresents (by omega)

theorem represents_nil : Represents [] [] := ⟨List.Pairwise.nil, fun _ => Iff.rfl⟩

/-- For every sequence of calls on a new set: every call returns, no stored range contains another,
and the set includes exactly what some range inserted since the last `clear` contains. -/
theorem rangeSet_refines_inserted (operations : List Operation) (fuel : ℕ)
    (enough : operations.length < fuel) :
    ∃ set, run (step equalRange fuel) [] operations = some set ∧
      (set.Pairwise fun first second =>
        first.contains second = false ∧ second.contains first = false) ∧
      ∀ range, includes equalRange set range = true ↔
        ∃ inserted ∈ operations.foldl insertedSince [], inserted.contains range = true := by
  obtain ⟨set, reached, represents, -⟩ := run_represents equalRange operations represents_nil fuel
    (by rw [List.length_nil, Nat.zero_add]; exact enough)
  refine ⟨set, reached, represents.stored.antichain, fun range => ?_⟩
  rw [includes_iff equalRange represents.stored]
  exact represents.included range

/-- A range inserted after a `clear` is included, with a search from the front. -/
theorem rangeSet_refines_inserted_nested :
    ∃ set, run (step (linearEqualRange modifiedLess) 5) []
        [.insert (.init [192, 168, 0, 0] 16), .clear, .insert (.init [10, 1, 0, 0] 16),
          .insert (.init [10, 0, 0, 0] 8)] = some set ∧
      includes (linearEqualRange modifiedLess) set (.init [10, 1, 2, 0] 24) = true ∧
      includes (linearEqualRange modifiedLess) set (.init [192, 168, 0, 0] 16) = false := by
  obtain ⟨set, reached, -, meaning⟩ := rangeSet_refines_inserted (linearEqualRange modifiedLess)
    [.insert (.init [192, 168, 0, 0] 16), .clear, .insert (.init [10, 1, 0, 0] 16),
      .insert (.init [10, 0, 0, 0] 8)] 5 (by decide)
  refine ⟨set, reached, (meaning _).mpr ⟨.init [10, 0, 0, 0] 8, List.mem_cons_self, by decide⟩, ?_⟩
  refine Bool.eq_false_iff.mpr fun found => ?_
  have absent : ∀ range ∈ [CidrRange.init [10, 0, 0, 0] 8, .init [10, 1, 0, 0] 16],
      range.contains (.init [192, 168, 0, 0] 16) = false := by decide
  obtain ⟨range, member, contained⟩ := (meaning _).mp found
  exact Bool.false_ne_true ((absent range member).symm.trans contained)

/-! ### The result of an insertion -/

/-- The contract of `CidrRangeSet::insert`: the result says whether the set did not include the
range before, and a set that did is left unmodified. -/
def InsertContract (set : List CidrRange) (range : CidrRange) (result : Bool)
    (next : List CidrRange) : Prop :=
  (result = true ↔ includes equalRange set range = false) ∧ (result = false → next = set)

/-- On stored ranges the contract is kept unless the range itself is stored: the loop erases the
stored one, and the range is inserted again. -/
theorem insert_contract_of_stored {set : List CidrRange} (stored : Stored set) (range : CidrRange)
    (fuel : ℕ) (enough : set.length < fuel) :
    ∃ result next, insert equalRange fuel set range = some (result, next) ∧
      (InsertContract equalRange set range result next ↔
        ∀ other ∈ set, rangeEquals other range = false) := by
  have included := includes_iff equalRange stored range
  rcases insert_spec equalRange stored range fuel enough with
    ⟨⟨outer, member, larger, notInside⟩, result⟩ | ⟨replaced, result⟩
  · refine ⟨false, set, result, iff_of_true ⟨?_, fun _ => rfl⟩ fun other otherMember => ?_⟩
    · rw [included.mpr ⟨outer, member, larger⟩]
      exact iff_of_false Bool.false_ne_true Bool.false_ne_true.symm
    · -- an equal range would lie in the larger one, and no stored range lies in another
      refine Bool.eq_false_iff.mpr fun same => ?_
      obtain ⟨otherOuter, otherInner⟩ := (CidrRange.contains_both_iff other range).mpr same
      have nested := CidrRange.contains_trans outer range other larger otherInner
      rw [stored.eq_of_contains member otherMember nested, otherInner] at notInside
      exact Bool.false_ne_true notInside.symm
  · refine ⟨true, inserted set range, result, ?_⟩
    constructor
    · intro contract other otherMember
      refine Bool.eq_false_iff.mpr fun same => ?_
      have outer := ((CidrRange.contains_both_iff other range).mpr same).1
      have absent := contract.1.mp rfl
      rw [included.mpr ⟨other, otherMember, outer⟩] at absent
      exact Bool.false_ne_true absent.symm
    · intro different
      refine ⟨iff_of_true rfl (Bool.eq_false_iff.mpr fun found => ?_),
        fun impossible => absurd impossible.symm Bool.false_ne_true⟩
      obtain ⟨outer, member, contained⟩ := included.mp found
      have same := (CidrRange.contains_both_iff outer range).mp
        ⟨contained, replaced outer member contained⟩
      exact Bool.false_ne_true ((different outer member).symm.trans same)

/-- For every set that a sequence of calls on a new one reaches and every range: a call of `insert`
returns, and keeps its contract exactly when the range is not stored already. -/
theorem insert_contract_iff (operations : List Operation) (fuel : ℕ)
    (enough : operations.length < fuel) :
    ∃ set, run (step equalRange fuel) [] operations = some set ∧
      ∀ range, ∃ result next, insert equalRange fuel set range = some (result, next) ∧
        (InsertContract equalRange set range result next ↔
          ∀ other ∈ set, rangeEquals other range = false) := by
  obtain ⟨set, reached, represents, shorter⟩ := run_represents equalRange operations represents_nil
    fuel (by rw [List.length_nil, Nat.zero_add]; exact enough)
  exact ⟨set, reached, fun range =>
    insert_contract_of_stored equalRange represents.stored range fuel shorter⟩

/-- A range inside a stored one and a range outside of it, with a search from the front. -/
theorem insert_contract_iff_nested :
    ∃ set result next otherResult otherNext,
      run (step (linearEqualRange modifiedLess) 2) [] [.insert (.init [10, 0, 0, 0] 8)] =
        some set ∧
      insert (linearEqualRange modifiedLess) 2 set (.init [10, 1, 0, 0] 16) =
        some (result, next) ∧
      InsertContract (linearEqualRange modifiedLess) set (.init [10, 1, 0, 0] 16) result next ∧
      insert (linearEqualRange modifiedLess) 2 set (.init [11, 0, 0, 0] 8) =
        some (otherResult, otherNext) ∧
      InsertContract (linearEqualRange modifiedLess) set (.init [11, 0, 0, 0] 8) otherResult
        otherNext := by
  obtain ⟨set, reached, contract⟩ := insert_contract_iff (linearEqualRange modifiedLess)
    [.insert (.init [10, 0, 0, 0] 8)] 2 (by decide)
  have contents : set = [.init [10, 0, 0, 0] 8] := Option.some.inj (reached.symm.trans rfl)
  obtain ⟨result, next, called, kept⟩ := contract (.init [10, 1, 0, 0] 16)
  obtain ⟨otherResult, otherNext, otherCalled, otherKept⟩ := contract (.init [11, 0, 0, 0] 8)
  rw [contents] at kept otherKept
  refine ⟨set, result, next, otherResult, otherNext, reached, called, ?_, otherCalled, ?_⟩
  · rw [contents]
    exact kept.mpr (by decide)
  · rw [contents]
    exact otherKept.mpr (by decide)

/-- Inserting a range twice: the set includes it, and the second call returns true all the same. -/
theorem insertedTwice_breaksContract :
    ∃ set next, run (step (linearEqualRange modifiedLess) 2) [] [.insert (.init [10, 0, 0, 0] 8)] =
        some set ∧
      includes (linearEqualRange modifiedLess) set (.init [10, 0, 0, 0] 8) = true ∧
      insert (linearEqualRange modifiedLess) 2 set (.init [10, 0, 0, 0] 8) = some (true, next) ∧
      ¬InsertContract (linearEqualRange modifiedLess) set (.init [10, 0, 0, 0] 8) true next := by
  refine ⟨[.init [10, 0, 0, 0] 8], _, rfl, by decide, rfl, fun contract => ?_⟩
  exact absurd (contract.1.mp rfl) (by decide)

end CidrRangeSet

end NativeLibs.Cidr
