/-
This file is the project's library on dot segments. A path is a list of letters
in which one letter separates segments and another one is the dot. The
procedure of RFC 3986, section 5.2.4, takes the dot segments out of a path by
moving it from an input buffer to an output buffer, letter by letter.

For a path that starts with the separator the procedure is a walk over the
segments. Those that are kept so far form a stack: a single dot changes nothing,
a double dot takes the last segment away, and any other segment is added. A dot
segment at the end of the path leaves an empty segment behind. The walk is
stated for any notion of a parent segment, so that it also describes a
procedure that takes other segments for a double dot. A wider notion leads to
the same end only if the stack runs empty behind the last segment on which the
two differ.
-/

import NativeLibs.Library.Lines

namespace NativeLibs.Library

variable {Letter : Type*} [DecidableEq Letter] (slash dot : Letter)

/-! ### The procedure -/

/-- An output without its last segment and the separator before that, if there is one. -/
def withoutLast (output : List Letter) : List Letter :=
  (output.rdropWhile fun letter => letter ≠ slash).dropLast

/-- The loop of the procedure, with a bound on the number of rounds. -/
def removeDotSegmentsLoop : ℕ → List Letter → List Letter → List Letter
  | 0, _, output => output
  | _ + 1, [], output => output
  | rounds + 1, letter :: rest, output =>
    -- A: a relative prefix goes
    if [dot, dot, slash] <+: letter :: rest then
      removeDotSegmentsLoop rounds ((letter :: rest).drop 3) output
    else if [dot, slash] <+: letter :: rest then
      removeDotSegmentsLoop rounds ((letter :: rest).drop 2) output
    -- B: a segment that is a dot goes
    else if [slash, dot, slash] <+: letter :: rest then
      removeDotSegmentsLoop rounds ((letter :: rest).drop 2) output
    else if letter :: rest = [slash, dot] then removeDotSegmentsLoop rounds [slash] output
    -- C: a segment that is a double dot goes with the last one of the output
    else if [slash, dot, dot, slash] <+: letter :: rest then
      removeDotSegmentsLoop rounds ((letter :: rest).drop 3) (withoutLast slash output)
    else if letter :: rest = [slash, dot, dot] then
      removeDotSegmentsLoop rounds [slash] (withoutLast slash output)
    -- D: nothing but dots
    else if letter :: rest = [dot] ∨ letter :: rest = [dot, dot] then
      removeDotSegmentsLoop rounds [] output
    -- E: the first segment moves to the output
    else
      removeDotSegmentsLoop rounds (rest.dropWhile fun other => other ≠ slash)
        (output ++ letter :: rest.takeWhile fun other => other ≠ slash)

/-- The procedure. Every round makes the input shorter. -/
def removeDotSegments (path : List Letter) : List Letter :=
  removeDotSegmentsLoop slash dot path.length path []

/-! ### Segments -/

/-- The path of some segments, each behind a separator. -/
def render (segments : List (List Letter)) : List Letter :=
  (segments.map fun segment => slash :: segment).flatten

/-- The segments of a path that starts with the separator, but for the last one. -/
def innerSegments (path : List Letter) : List (List Letter) := (path.tail.splitOn slash).dropLast

/-- The last segment of a path that starts with the separator. -/
def lastSegment (path : List Letter) : List Letter := (path.tail.splitOn slash).getLastD []

omit [DecidableEq Letter] in
theorem render_cons (segment : List Letter) (segments : List (List Letter)) :
    render slash (segment :: segments) = slash :: (segment ++ render slash segments) := rfl

omit [DecidableEq Letter] in
theorem render_append (segments others : List (List Letter)) :
    render slash (segments ++ others) = render slash segments ++ render slash others := by
  rw [render, List.map_append, List.flatten_append]
  rfl

omit [DecidableEq Letter] in
theorem render_concat (segments : List (List Letter)) (segment : List Letter) :
    render slash (segments ++ [segment]) = render slash segments ++ slash :: segment := by
  rw [render_append, render_cons]
  exact congrArg (fun last => render slash segments ++ slash :: last) (List.append_nil segment)

omit [DecidableEq Letter] in
theorem render_eq_cons (inner : List (List Letter)) (last : List Letter) :
    ∃ rest, render slash (inner ++ [last]) = slash :: rest := by
  cases inner with
  | nil => exact ⟨_, rfl⟩
  | cons segment inner => exact ⟨_, rfl⟩

theorem render_splitOn (rest : List Letter) :
    render slash (rest.splitOn slash) = slash :: rest := by
  induction rest with
  | nil => rfl
  | cons letter rest inductionHypothesis =>
    rw [List.splitOn, List.splitOnP_cons_eq_if_modifyHead]
    change render slash (rest.splitOnP (· == slash)) = _ at inductionHypothesis
    by_cases here : letter = slash
    · rw [if_pos (beq_iff_eq.mpr here), render_cons, inductionHypothesis, here]
      rfl
    · rw [if_neg (fun same => here (beq_iff_eq.mp same))]
      obtain ⟨first, others, split⟩ := List.exists_cons_of_ne_nil
        (List.splitOnP_ne_nil (· == slash) rest)
      rw [split, render_cons] at inductionHypothesis
      rw [split, List.modifyHead_cons, render_cons, List.cons_append,
        (List.cons.inj inductionHypothesis).2]

theorem notMem_of_mem_splitOn (rest : List Letter) :
    ∀ segment ∈ rest.splitOn slash, slash ∉ segment := by
  induction rest with
  | nil =>
    intro segment member
    rw [List.splitOn_nil, List.mem_singleton] at member
    rw [member]
    exact List.not_mem_nil
  | cons letter rest inductionHypothesis =>
    rw [List.splitOn, List.splitOnP_cons_eq_if_modifyHead]
    change ∀ segment ∈ rest.splitOnP (· == slash), _ at inductionHypothesis
    by_cases here : letter = slash
    · rw [if_pos (beq_iff_eq.mpr here)]
      exact List.forall_mem_cons.mpr ⟨List.not_mem_nil, inductionHypothesis⟩
    · rw [if_neg (fun same => here (beq_iff_eq.mp same))]
      obtain ⟨first, others, split⟩ := List.exists_cons_of_ne_nil
        (List.splitOnP_ne_nil (· == slash) rest)
      rw [split, List.forall_mem_cons] at inductionHypothesis
      rw [split, List.modifyHead_cons, List.forall_mem_cons, List.mem_cons, not_or]
      exact ⟨⟨fun same => here same.symm, inductionHypothesis.1⟩, inductionHypothesis.2⟩

theorem splitOn_eq_append (path : List Letter) :
    path.tail.splitOn slash = innerSegments slash path ++ [lastSegment slash path] := by
  have nonempty : path.tail.splitOn slash ≠ [] := List.splitOnP_ne_nil _ _
  rw [innerSegments, lastSegment, List.getLastD_eq_getLast?, List.getLast?_eq_some_getLast nonempty,
    Option.getD_some, List.dropLast_concat_getLast nonempty]

theorem render_segments {path : List Letter} (absolute : path.head? = some slash) :
    render slash (innerSegments slash path ++ [lastSegment slash path]) = path := by
  rw [← splitOn_eq_append, render_splitOn]
  cases path with
  | nil => cases absolute
  | cons letter rest =>
    obtain rfl := Option.some.inj absolute
    rfl

theorem notMem_of_mem_segments (path : List Letter) :
    ∀ segment ∈ innerSegments slash path ++ [lastSegment slash path], slash ∉ segment := by
  rw [← splitOn_eq_append]
  exact notMem_of_mem_splitOn slash _

/-! ### The walk over the segments -/

/-- One segment of the walk. -/
def keep (isParent : List Letter → Bool) (kept : List (List Letter)) (segment : List Letter) :
    List (List Letter) :=
  if segment = [dot] then kept
  else if isParent segment then kept.dropLast
  else kept ++ [segment]

/-- The segments that are left of some. -/
def retained (isParent : List Letter → Bool) (segments : List (List Letter)) :
    List (List Letter) :=
  segments.foldl (keep dot isParent) []

/-- A segment is a double dot. -/
def isDoubleDot (segment : List Letter) : Bool := segment = [dot, dot]

/-- The end of the walk. -/
def close (kept : List (List Letter)) (last : List Letter) : List (List Letter) :=
  if last = [dot] then kept ++ [[]]
  else if last = [dot, dot] then kept.dropLast ++ [[]]
  else kept ++ [last]

variable {slash dot}

theorem keep_dot (isParent : List Letter → Bool) (kept : List (List Letter)) :
    keep dot isParent kept [dot] = kept := if_pos rfl

theorem keep_parent {isParent : List Letter → Bool} {segment : List Letter}
    (notDot : segment ≠ [dot]) (parent : isParent segment = true) (kept : List (List Letter)) :
    keep dot isParent kept segment = kept.dropLast := by
  rw [keep, if_neg notDot, if_pos parent]

theorem keep_other {isParent : List Letter → Bool} {segment : List Letter}
    (notDot : segment ≠ [dot]) (other : isParent segment = false) (kept : List (List Letter)) :
    keep dot isParent kept segment = kept ++ [segment] := by
  rw [keep, if_neg notDot, other, if_neg Bool.false_ne_true]

theorem takeWhile_segment {segment rest : List Letter} (free : slash ∉ segment)
    (next : rest = [] ∨ rest.head? = some slash) :
    (segment ++ rest).takeWhile (fun letter => letter ≠ slash) = segment := by
  refine takeWhile_append_stop (fun letter member => ?_) fun letter head => ?_
  · exact decide_eq_true fun same => free (same ▸ member)
  · obtain rfl | separator := next
    · cases head
    · exact decide_eq_false fun different => different (Option.some.inj (head.symm.trans separator))

theorem segment_unique {segment other rest more : List Letter} (free : slash ∉ segment)
    (otherFree : slash ∉ other) (next : rest = [] ∨ rest.head? = some slash)
    (otherNext : more = [] ∨ more.head? = some slash) (same : segment ++ rest = other ++ more) :
    segment = other := by
  rw [← takeWhile_segment free next, same, takeWhile_segment otherFree otherNext]

theorem dropWhile_segment {segment rest : List Letter} (free : slash ∉ segment)
    (next : rest = [] ∨ rest.head? = some slash) :
    (segment ++ rest).dropWhile (fun letter => letter ≠ slash) = rest := by
  have together := List.takeWhile_append_dropWhile (p := fun letter => decide (letter ≠ slash))
    (l := segment ++ rest)
  rw [takeWhile_segment free next] at together
  exact List.append_cancel_left together

theorem withoutLast_render {kept : List (List Letter)} (free : ∀ segment ∈ kept, slash ∉ segment) :
    withoutLast slash (render slash kept) = render slash kept.dropLast := by
  obtain rfl | ⟨earlier, last, rfl⟩ := List.eq_nil_or_concat kept
  · rfl
  rw [List.concat_eq_append] at free ⊢
  have lastFree : slash ∉ last.reverse := by
    rw [List.mem_reverse]
    exact free last List.mem_concat_self
  have single : render slash [last] = slash :: last := List.append_nil _
  rw [withoutLast, render_append, single, List.dropLast_concat, List.rdropWhile,
    List.reverse_append, List.reverse_cons, List.append_assoc,
    dropWhile_segment lastFree (.inr rfl), List.singleton_append, List.reverse_cons,
    List.reverse_reverse, List.dropLast_concat]

/-! ### The rounds of the procedure -/

section Rounds

variable (different : dot ≠ slash) (rounds : ℕ) (output : List Letter)
include different

theorem loop_dot (rest : List Letter) :
    removeDotSegmentsLoop slash dot (rounds + 1) (slash :: dot :: slash :: rest) output =
      removeDotSegmentsLoop slash dot rounds (slash :: rest) output := by
  simp [removeDotSegmentsLoop, List.cons_prefix_cons, different]

theorem loop_lastDot :
    removeDotSegmentsLoop slash dot (rounds + 1) [slash, dot] output =
      removeDotSegmentsLoop slash dot rounds [slash] output := by
  simp [removeDotSegmentsLoop, List.cons_prefix_cons, different]

theorem loop_doubleDot (rest : List Letter) :
    removeDotSegmentsLoop slash dot (rounds + 1) (slash :: dot :: dot :: slash :: rest) output =
      removeDotSegmentsLoop slash dot rounds (slash :: rest) (withoutLast slash output) := by
  simp [removeDotSegmentsLoop, List.cons_prefix_cons, different, different.symm]

theorem loop_lastDoubleDot :
    removeDotSegmentsLoop slash dot (rounds + 1) [slash, dot, dot] output =
      removeDotSegmentsLoop slash dot rounds [slash] (withoutLast slash output) := by
  simp [removeDotSegmentsLoop, List.cons_prefix_cons, different, different.symm]

/-- A segment that is no dot segment moves to the output. -/
theorem loop_segment {segment rest : List Letter} (free : slash ∉ segment)
    (next : rest = [] ∨ rest.head? = some slash) (notDot : segment ≠ [dot])
    (notDoubleDot : segment ≠ [dot, dot]) :
    removeDotSegmentsLoop slash dot (rounds + 1) (slash :: (segment ++ rest)) output =
      removeDotSegmentsLoop slash dot rounds rest (output ++ slash :: segment) := by
  -- what stands before the next separator is the segment, so no case for dots applies
  have dotFree : slash ∉ [dot] := by simp [different.symm]
  have doubleDotFree : slash ∉ [dot, dot] := by simp [different.symm]
  have notDotPrefix : ¬[dot, slash] <+: segment ++ rest := by
    rintro ⟨others, same⟩
    exact notDot (segment_unique free dotFree next (.inr rfl) same.symm)
  have notDoubleDotPrefix : ¬[dot, dot, slash] <+: segment ++ rest := by
    rintro ⟨others, same⟩
    exact notDoubleDot (segment_unique free doubleDotFree next (.inr rfl) same.symm)
  have notOnlyDot : segment ++ rest ≠ [dot] := fun same =>
    notDot (segment_unique free dotFree next (.inl rfl) same)
  have notOnlyDoubleDot : segment ++ rest ≠ [dot, dot] := fun same =>
    notDoubleDot (segment_unique free doubleDotFree next (.inl rfl) same)
  rw [removeDotSegmentsLoop, takeWhile_segment free next, dropWhile_segment free next]
  simp [List.cons_prefix_cons, different, different.symm, notDotPrefix, notDoubleDotPrefix,
    notOnlyDot, notOnlyDoubleDot]

theorem loop_end {segment : List Letter} (free : slash ∉ segment) (notDot : segment ≠ [dot])
    (notDoubleDot : segment ≠ [dot, dot]) :
    removeDotSegmentsLoop slash dot (rounds + 1) (slash :: segment) output =
      output ++ slash :: segment := by
  have moved := loop_segment different rounds output free (.inl rfl) notDot notDoubleDot
  rw [List.append_nil] at moved
  rw [moved]
  cases rounds with
  | zero => rfl
  | succ rounds => rfl

/-- The last segment of the input. -/
theorem loop_last {kept : List (List Letter)} {last : List Letter}
    (keptFree : ∀ segment ∈ kept, slash ∉ segment) (free : slash ∉ last)
    (enough : last.length < rounds) :
    removeDotSegmentsLoop slash dot rounds (slash :: last) (render slash kept) =
      render slash (close dot kept last) := by
  have empty : ([] : List Letter) ≠ [dot] ∧ ([] : List Letter) ≠ [dot, dot] := by simp
  unfold close
  by_cases isDot : last = [dot]
  · subst isDot
    obtain ⟨rounds, rfl⟩ := Nat.exists_eq_add_of_le' (show 2 ≤ rounds from enough)
    rw [if_pos rfl, loop_lastDot different,
      loop_end different _ _ List.not_mem_nil empty.1 empty.2, render_concat]
  by_cases isDoubleDot : last = [dot, dot]
  · subst isDoubleDot
    obtain ⟨rounds, rfl⟩ := Nat.exists_eq_add_of_le' (show 3 ≤ rounds from enough)
    rw [if_neg isDot, if_pos rfl, loop_lastDoubleDot different, withoutLast_render keptFree,
      loop_end different _ _ List.not_mem_nil empty.1 empty.2, render_concat]
  · obtain ⟨rounds, rfl⟩ := Nat.exists_eq_add_of_le' (show 1 ≤ rounds from Nat.one_le_of_lt enough)
    rw [if_neg isDot, if_neg isDoubleDot, loop_end different _ _ free isDot isDoubleDot,
      render_concat]

/-- The loop walks over the segments. -/
theorem loop_render (inner : List (List Letter)) {kept : List (List Letter)} {last : List Letter}
    (keptFree : ∀ segment ∈ kept, slash ∉ segment)
    (free : ∀ segment ∈ inner ++ [last], slash ∉ segment)
    (enough : (render slash (inner ++ [last])).length ≤ rounds) :
    removeDotSegmentsLoop slash dot rounds (render slash (inner ++ [last])) (render slash kept) =
      render slash (close dot (inner.foldl (keep dot (isDoubleDot dot)) kept) last) := by
  induction inner generalizing kept rounds with
  | nil =>
    have single : render slash ([] ++ [last]) = slash :: last := List.append_nil _
    rw [single] at enough ⊢
    exact loop_last different rounds keptFree (free last List.mem_cons_self) enough
  | cons segment inner inductionHypothesis =>
    have segmentFree := free segment List.mem_cons_self
    have restFree : ∀ other ∈ inner ++ [last], slash ∉ other :=
      fun other member => free other (List.mem_cons_of_mem _ member)
    rw [List.cons_append, render_cons] at enough ⊢
    rw [List.length_cons, List.length_append] at enough
    obtain ⟨rounds, rfl⟩ := Nat.exists_eq_add_of_le' (Nat.one_le_of_lt enough)
    -- what is left of the input is a path again
    obtain ⟨rest, isPath⟩ := render_eq_cons slash inner last
    rw [List.foldl_cons]
    by_cases isDot : segment = [dot]
    · subst isDot
      rw [keep_dot, isPath, List.singleton_append, loop_dot different, ← isPath]
      exact inductionHypothesis rounds keptFree restFree (by omega)
    by_cases isParent : segment = [dot, dot]
    · subst isParent
      rw [keep_parent isDot (decide_eq_true rfl), isPath, List.cons_append, List.singleton_append,
        loop_doubleDot different, ← isPath, withoutLast_render keptFree]
      exact inductionHypothesis rounds
        (fun other member => keptFree other (List.dropLast_subset kept member)) restFree (by omega)
    · rw [keep_other isDot (decide_eq_false isParent), loop_segment different _ _ segmentFree
        (.inr (by rw [isPath]; rfl)) isDot isParent, ← render_concat]
      refine inductionHypothesis rounds (fun other member => ?_) restFree (by omega)
      rcases List.mem_append.mp member with before | same
      · exact keptFree other before
      · rw [List.mem_singleton.mp same]
        exact segmentFree

end Rounds

/-- Of a path that starts with the separator the procedure leaves the segments that the walk
keeps. -/
theorem removeDotSegments_eq (different : dot ≠ slash) {path : List Letter}
    (absolute : path.head? = some slash) :
    removeDotSegments slash dot path =
      render slash (close dot (retained dot (isDoubleDot dot) (innerSegments slash path))
        (lastSegment slash path)) := by
  have whole := render_segments slash absolute
  have walked := loop_render different path.length (innerSegments slash path)
    (List.forall_mem_nil _) (notMem_of_mem_segments slash path) (by rw [whole])
  rw [whole] at walked
  exact walked

/-! ### Comparing paths -/

omit [DecidableEq Letter] in
theorem render_next (segments : List (List Letter)) :
    render slash segments = [] ∨ (render slash segments).head? = some slash := by
  cases segments with
  | nil => exact .inl rfl
  | cons segment rest => exact .inr rfl

theorem render_injective {segments others : List (List Letter)}
    (free : ∀ segment ∈ segments, slash ∉ segment) (otherFree : ∀ segment ∈ others, slash ∉ segment)
    (same : render slash segments = render slash others) : segments = others := by
  induction segments generalizing others with
  | nil =>
    cases others with
    | nil => rfl
    | cons other rest => cases same
  | cons segment rest inductionHypothesis =>
    cases others with
    | nil => cases same
    | cons other more =>
      rw [List.forall_mem_cons] at free otherFree
      rw [render_cons, render_cons] at same
      have tails := (List.cons.inj same).2
      obtain rfl := segment_unique free.1 otherFree.1 (render_next rest) (render_next more) tails
      rw [inductionHypothesis free.2 otherFree.2 (List.append_cancel_left tails)]

theorem mem_of_mem_foldl_keep {isParent : List Letter → Bool} {segments kept : List (List Letter)}
    {segment : List Letter} (member : segment ∈ segments.foldl (keep dot isParent) kept) :
    segment ∈ kept ∨ segment ∈ segments := by
  induction segments generalizing kept with
  | nil => exact .inl member
  | cons first rest inductionHypothesis =>
    rcases inductionHypothesis member with before | later
    · rw [keep] at before
      split_ifs at before with isDot parent
      · exact .inl before
      · exact .inl (List.dropLast_subset kept before)
      · rcases List.mem_append.mp before with earlier | here
        · exact .inl earlier
        · exact .inr (List.mem_cons.mpr (.inl (List.mem_singleton.mp here)))
    · exact .inr (List.mem_cons_of_mem _ later)

theorem mem_of_mem_retained {isParent : List Letter → Bool} {segments : List (List Letter)}
    {segment : List Letter} (member : segment ∈ retained dot isParent segments) :
    segment ∈ segments :=
  (mem_of_mem_foldl_keep member).resolve_left List.not_mem_nil

theorem retained_eq_self {isParent : List Letter → Bool} {segments : List (List Letter)}
    (plain : ∀ segment ∈ segments, segment ≠ [dot] ∧ isParent segment = false) :
    retained dot isParent segments = segments := by
  have walked : ∀ kept, segments.foldl (keep dot isParent) kept = kept ++ segments := by
    induction segments with
    | nil => exact fun kept => (List.append_nil kept).symm
    | cons first rest inductionHypothesis =>
      intro kept
      rw [List.forall_mem_cons] at plain
      rw [List.foldl_cons, keep_other plain.1.1 plain.1.2, inductionHypothesis plain.2,
        List.append_assoc, List.singleton_append]
  exact walked []

theorem retained_congr {isParent isOther : List Letter → Bool} {segments : List (List Letter)}
    (agree : ∀ segment ∈ segments, isParent segment = isOther segment) :
    retained dot isParent segments = retained dot isOther segments := by
  refine List.foldl_ext _ _ _ fun kept segment member => ?_
  rw [keep, keep, agree segment member]

theorem retained_append (isParent : List Letter → Bool) (before after : List (List Letter)) :
    retained dot isParent (before ++ after) =
      after.foldl (keep dot isParent) (retained dot isParent before) := List.foldl_append

/-! ### Two notions of a parent -/

section Parents

variable {narrow wide : List Letter → Bool}
  (widens : ∀ segment, narrow segment = true → wide segment = true)
  (alike : wide [dot] = narrow [dot])
include widens alike

/-- Where more segments are parents, fewer are kept. If as many are kept after all, nothing is, or
the two notions agree. -/
theorem keep_behind {kept fewer : List (List Letter)}
    (behind : fewer.length < kept.length ∨ fewer = kept) (segment : List Letter) :
    (keep dot wide fewer segment).length < (keep dot narrow kept segment).length ∨
      keep dot wide fewer segment = keep dot narrow kept segment ∧
        (keep dot narrow kept segment = [] ∨ fewer = kept ∧ wide segment = narrow segment) := by
  by_cases isDot : segment = [dot]
  · subst isDot
    rw [keep_dot, keep_dot]
    exact behind.imp_right fun same => ⟨same, .inr ⟨same, alike⟩⟩
  cases isNarrow : narrow segment with
  | true =>
    have isWide := widens segment isNarrow
    rw [keep_parent isDot isNarrow, keep_parent isDot isWide, List.length_dropLast,
      List.length_dropLast]
    rcases behind with less | rfl
    · by_cases last : kept.length = 1
      · obtain rfl := List.length_eq_zero_iff.mp (show fewer.length = 0 by omega)
        have empty : kept.dropLast = [] := List.length_eq_zero_iff.mp (by simp [last])
        exact .inr ⟨empty.symm, .inl empty⟩
      · exact .inl (by omega)
    · exact .inr ⟨rfl, .inr ⟨rfl, isWide⟩⟩
  | false =>
    have atMost : fewer.length ≤ kept.length := behind.elim le_of_lt fun same => same ▸ le_rfl
    rw [keep_other isDot isNarrow, List.length_append, List.length_singleton]
    cases isWide : wide segment with
    | true =>
      rw [keep_parent isDot isWide, List.length_dropLast]
      exact .inl (by omega)
    | false =>
      rw [keep_other isDot isWide, List.length_append, List.length_singleton]
      exact behind.imp Nat.succ_lt_succ fun same => ⟨by rw [same], .inr ⟨same, rfl⟩⟩

theorem foldl_keep_behind (segments : List (List Letter)) {kept fewer : List (List Letter)}
    (behind : fewer.length < kept.length ∨ fewer = kept) :
    (segments.foldl (keep dot wide) fewer).length <
        (segments.foldl (keep dot narrow) kept).length ∨
      segments.foldl (keep dot wide) fewer = segments.foldl (keep dot narrow) kept := by
  induction segments generalizing kept fewer with
  | nil => exact behind
  | cons segment rest inductionHypothesis =>
    exact inductionHypothesis ((keep_behind widens alike behind segment).imp_right And.left)

/-- Two walks that end with the same segments agreed all the time, or since nothing was kept. -/
theorem agree_of_foldl_keep_eq (segments : List (List Letter)) {kept fewer : List (List Letter)}
    (behind : fewer.length < kept.length ∨ fewer = kept)
    (same : segments.foldl (keep dot wide) fewer = segments.foldl (keep dot narrow) kept) :
    (fewer = kept ∧ ∀ segment ∈ segments, wide segment = narrow segment) ∨
      ∃ before after, segments = before ++ after ∧ before.foldl (keep dot narrow) kept = [] ∧
        ∀ segment ∈ after, wide segment = narrow segment := by
  induction segments generalizing kept fewer with
  | nil =>
    refine .inl ⟨behind.resolve_left fun less => ?_, List.forall_mem_nil _⟩
    exact less.ne (congrArg List.length same)
  | cons segment rest inductionHypothesis =>
    have stepped := keep_behind widens alike behind segment
    rcases inductionHypothesis (stepped.imp_right And.left) same with
      ⟨sameNow, agree⟩ | ⟨before, after, rfl, empty, agree⟩
    · obtain ⟨-, empty | ⟨sameBefore, agreed⟩⟩ :=
        stepped.resolve_left fun less => less.ne (congrArg List.length sameNow)
      · exact .inr ⟨[segment], rest, rfl, empty, agree⟩
      · exact .inl ⟨sameBefore, List.forall_mem_cons.mpr ⟨agreed, agree⟩⟩
    · exact .inr ⟨segment :: before, after, rfl, empty, agree⟩

/-- Two notions of a parent retain the same exactly if they agree on all segments behind some place
at which the narrower one retains nothing. -/
theorem retained_eq_iff (segments : List (List Letter)) :
    retained dot wide segments = retained dot narrow segments ↔
      ∃ before after, segments = before ++ after ∧ retained dot narrow before = [] ∧
        ∀ segment ∈ after, wide segment = narrow segment := by
  constructor
  · intro same
    rcases agree_of_foldl_keep_eq widens alike segments (.inr rfl) same with
      ⟨-, agree⟩ | cut
    · exact ⟨[], segments, rfl, rfl, agree⟩
    · exact cut
  · rintro ⟨before, after, rfl, empty, agree⟩
    have emptied : retained dot wide before = retained dot narrow before := by
      refine (foldl_keep_behind widens alike before (.inr rfl)).resolve_left fun less => ?_
      rw [← retained, ← retained, empty] at less
      cases less
    rw [retained_append, retained_append, emptied, empty]
    exact retained_congr agree

end Parents
/-- The procedure leaves the segments of a path as they are given exactly if the last one is no dot
segment and the others are those it retains. -/
theorem render_eq_removeDotSegments_iff (different : dot ≠ slash) {path : List Letter}
    (absolute : path.head? = some slash) {kept : List (List Letter)}
    (free : ∀ segment ∈ kept, slash ∉ segment) :
    render slash (kept ++ [lastSegment slash path]) = removeDotSegments slash dot path ↔
      lastSegment slash path ≠ [dot] ∧ lastSegment slash path ≠ [dot, dot] ∧
        kept = retained dot (isDoubleDot dot) (innerSegments slash path) := by
  have segmentsFree := notMem_of_mem_segments slash path
  rw [List.forall_mem_append, List.forall_mem_singleton] at segmentsFree
  obtain ⟨innerFree, lastFree⟩ := segmentsFree
  have retainedFree : ∀ segment ∈ retained dot (isDoubleDot dot) (innerSegments slash path),
      slash ∉ segment := fun segment member => innerFree segment (mem_of_mem_retained member)
  have concatFree : ∀ segments : List (List Letter), (∀ segment ∈ segments, slash ∉ segment) →
      ∀ last, slash ∉ last → ∀ segment ∈ segments ++ [last], slash ∉ segment := by
    intro segments segmentsFree last lastFree
    rw [List.forall_mem_append, List.forall_mem_singleton]
    exact ⟨segmentsFree, lastFree⟩
  rw [removeDotSegments_eq different absolute, close]
  by_cases isDot : lastSegment slash path = [dot]
  · rw [if_pos isDot]
    refine iff_of_false (fun same => ?_) fun holds => holds.1 isDot
    have segments := render_injective (concatFree _ free _ lastFree)
      (concatFree _ retainedFree _ List.not_mem_nil) same
    rw [isDot] at segments
    exact nomatch (List.append_inj' segments rfl).2
  by_cases isParent : lastSegment slash path = [dot, dot]
  · rw [if_neg isDot, if_pos isParent]
    refine iff_of_false (fun same => ?_) fun holds => holds.2.1 isParent
    have segments := render_injective (concatFree _ free _ lastFree)
      (concatFree _ (fun segment member => retainedFree segment
        (List.dropLast_subset _ member)) _ List.not_mem_nil) same
    rw [isParent] at segments
    exact nomatch (List.append_inj' segments rfl).2
  · rw [if_neg isDot, if_neg isParent, and_iff_right isDot, and_iff_right isParent]
    refine ⟨fun same => ?_, fun same => by rw [same]⟩
    exact (List.append_inj' (render_injective (concatFree _ free _ lastFree)
      (concatFree _ retainedFree _ lastFree) same) rfl).1

omit [DecidableEq Letter] in
/-- A segment that ends with a dot has a separator behind it unless it is the last. -/
theorem infix_of_mem {inner : List (List Letter)} {segment : List Letter} (last : List Letter)
    (member : segment ∈ inner) (ends : [dot] <:+ segment) :
    [dot, slash] <:+: render slash (inner ++ [last]) := by
  obtain ⟨before, after, rfl⟩ := List.append_of_mem member
  obtain ⟨start, rfl⟩ := ends
  obtain ⟨rest, isPath⟩ := render_eq_cons slash after last
  refine ⟨render slash before ++ slash :: start, rest, ?_⟩
  rw [List.append_assoc before, List.cons_append, render_append, render_cons, isPath]
  simp

end NativeLibs.Library
