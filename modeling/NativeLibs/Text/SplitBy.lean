/-
This file models the functions of `common/utils.cpp` that split a string into
pieces, and `utils::join`. All of them first count the pieces and then cut them
out in a second loop. The piece of an empty length is never kept, whatever the
caller asked for, so joining the pieces gives the string back only if no piece
is empty.

The counting loop of `split_by` goes on behind what it finds. An empty delimiter
is found where the search begins, so the loop does not move on then. A loop is
run for a number of rounds and has no result if it needs more.
-/

import NativeLibs.Library.Splitting
import NativeLibs.Text.Split

namespace NativeLibs

open Library

/-! ### Splitting -/

/-- What is kept of a piece. -/
def keepPiece (includeEmpty needTrim : Bool) (piece : Bytes) : List Bytes :=
  if piece.length ≠ 0 then
    let s := if needTrim then trim piece else piece
    if includeEmpty || !s.isEmpty then [s] else []
  else []

/-- The second loop of `split_by` and of `split_by_any_of`, for the number of pieces that were
counted. If nothing was found and the position is behind the end of the string, `substr` throws. -/
def splitLoop (find : ℕ → Option ℕ) (width : ℕ) (str : Bytes) (includeEmpty needTrim : Bool) :
    ℕ → ℕ → Option (List Bytes)
  | 0, _ => some []
  | num + 1, seek =>
    let stop := (find seek).getD str.length
    if stop < seek then none
    else
      (splitLoop find width str includeEmpty needTrim num (stop + width)).map fun out =>
        keepPiece includeEmpty needTrim ((str.drop seek).take (stop - seek)) ++ out

/-- The first loop of `split_by`, for at most so many rounds. -/
def countLoop (str delim : Bytes) : ℕ → ℕ → ℕ → Option ℕ
  | 0, _, _ => none
  | rounds + 1, num, seek =>
    match findFrom str delim seek with
    | some pos => countLoop str delim rounds (num + 1) (pos + delim.length)
    | none => some num

/-- `utils::split_by` with a string as the delimiter, if so many rounds are enough for its first
loop. -/
def splitBy (rounds : ℕ) (str delim : Bytes) (includeEmpty needTrim : Bool) :
    Option (List Bytes) :=
  if str.isEmpty then some (if includeEmpty then [str] else [])
  else
    (countLoop str delim rounds 1 0).bind fun num =>
      splitLoop (findFrom str delim) delim.length str includeEmpty needTrim num 0

/-- `utils::split_by_any_of`. -/
def splitByAnyOf (str delim : Bytes) (includeEmpty needTrim : Bool) : Option (List Bytes) :=
  if str.isEmpty then some (if includeEmpty then [str] else [])
  else
    let num := 1 + str.countP fun c => delim.contains c
    splitLoop (findFirstOfFrom str delim) 1 str includeEmpty needTrim num 0

/-- `utils::split_by` with a character as the delimiter, which is passed as an `int`. -/
def splitByChar (str : Bytes) (delim : Int32) (includeEmpty needTrim : Bool) :
    Option (List Bytes) :=
  let ch := delim.toInt8.toUInt8
  splitByAnyOf str [ch] includeEmpty needTrim

/-- `utils::join`. -/
def join (pieces : List Bytes) (delimiter : Bytes) : Bytes :=
  match pieces with
  | [] => []
  | first :: rest => rest.foldl (fun result piece => result ++ delimiter ++ piece) first

/-! ### What is kept -/

/-- The second loop keeps what it wants of the pieces that were counted. -/
theorem splitLoop_of_cut {find : ℕ → Option ℕ} {width : ℕ} {str : Bytes} {seek : ℕ}
    {pieces : List Bytes} (cut : CutsInto find width str seek pieces)
    (includeEmpty needTrim : Bool) :
    splitLoop find width str includeEmpty needTrim pieces.length seek =
      some (pieces.flatMap (keepPiece includeEmpty needTrim)) := by
  induction cut with
  | @last seek inside absent =>
    have all : (str.drop seek).take (str.length - seek) = str.drop seek := by
      rw [← List.length_drop, List.take_length]
    rw [List.length_singleton, splitLoop, absent, Option.getD_none, if_neg (Nat.not_lt.mpr inside),
      splitLoop, all]
    rfl
  | next found ahead later inductionHypothesis =>
    rw [List.length_cons, splitLoop, found, Option.getD_some, if_neg (Nat.not_lt.mpr ahead),
      inductionHypothesis, List.flatMap_cons]
    rfl

theorem countLoop_of_cut {str delim : Bytes} {seek : ℕ} {pieces : List Bytes}
    (cut : CutsInto (findFrom str delim) delim.length str seek pieces) (rounds num : ℕ) :
    countLoop str delim rounds (num + 1) seek =
      if pieces.length ≤ rounds then some (num + pieces.length) else none := by
  induction cut generalizing rounds num with
  | last inside absent =>
    cases rounds with
    | zero => rfl
    | succ rounds =>
      have enough : 1 ≤ rounds + 1 := Nat.le_add_left 1 rounds
      rw [countLoop, absent, List.length_singleton, if_pos enough]
  | next found ahead later inductionHypothesis =>
    cases rounds with
    | zero => rfl
    | succ rounds =>
      rw [countLoop, found, List.length_cons]
      simp only [inductionHypothesis, Nat.add_le_add_iff_right]
      refine ite_congr rfl (fun _ => ?_) fun _ => rfl
      rw [Nat.add_assoc, Nat.add_comm 1]

theorem isEmpty_of_ne_nil {str : Bytes} (filled : str ≠ []) : ¬str.isEmpty = true :=
  fun empty => filled (List.isEmpty_iff.mp empty)

/-- `split_by` with a delimiter that is not empty: with a round for every piece it returns what is
wanted of the pieces. -/
theorem splitBy_eq {str delim : Bytes} (filled : str ≠ []) (nonempty : delim ≠ [])
    (includeEmpty needTrim : Bool) (rounds : ℕ) :
    splitBy rounds str delim includeEmpty needTrim =
      if (parts delim str).length ≤ rounds then
        some ((parts delim str).flatMap (keepPiece includeEmpty needTrim))
      else none := by
  have cut := cut_parts nonempty (fun _ => findFrom_of_le delim) (Nat.zero_le str.length)
  rw [List.drop_zero] at cut
  rw [splitBy, if_neg (isEmpty_of_ne_nil filled), countLoop_of_cut cut rounds 0, Nat.zero_add]
  by_cases enough : (parts delim str).length ≤ rounds
  · rw [if_pos enough, if_pos enough, Option.bind_some, splitLoop_of_cut cut]
  · rw [if_neg enough, if_neg enough, Option.bind_none]

theorem splitBy_eq_some_iff {str delim : Bytes} (filled : str ≠ []) (nonempty : delim ≠ [])
    (includeEmpty needTrim : Bool) (rounds : ℕ) (pieces : List Bytes) :
    splitBy rounds str delim includeEmpty needTrim = some pieces ↔
      (parts delim str).length ≤ rounds ∧
        (parts delim str).flatMap (keepPiece includeEmpty needTrim) = pieces := by
  rw [splitBy_eq filled nonempty]
  by_cases enough : (parts delim str).length ≤ rounds
  · rw [if_pos enough, Option.some_inj]
    exact (and_iff_right enough).symm
  · rw [if_neg enough]
    exact iff_of_false (Option.some_ne_none pieces).symm fun both => enough both.1

/-- `split_by_any_of` returns what is wanted of the pieces. -/
theorem splitByAnyOf_eq {str : Bytes} (filled : str ≠ []) (delim : Bytes)
    (includeEmpty needTrim : Bool) :
    splitByAnyOf str delim includeEmpty needTrim =
      some ((str.splitOnP fun c => delim.contains c).flatMap
        (keepPiece includeEmpty needTrim)) := by
  have cut : CutsInto (findFirstOfFrom str delim) 1 str 0
      (str.splitOnP fun c => delim.contains c) :=
    cut_splitOnP (fun _ => rfl) (Nat.zero_le str.length)
  rw [splitByAnyOf, if_neg (isEmpty_of_ne_nil filled), ← splitLoop_of_cut cut, length_splitOnP,
    Nat.add_comm 1]

/-! ### Splitting and joining -/

theorem join_eq_intercalate (pieces : List Bytes) (delimiter : Bytes) :
    join pieces delimiter = delimiter.intercalate pieces := by
  cases pieces with
  | nil => rfl
  | cons first rest =>
    rw [join]
    induction rest generalizing first with
    | nil => rw [List.foldl_nil, List.intercalate_singleton]
    | cons second rest inductionHypothesis =>
      rw [List.foldl_cons, inductionHypothesis, List.intercalate_cons_cons]
      cases rest with
      | nil => rw [List.intercalate_singleton, List.intercalate_singleton]
      | cons third rest =>
        rw [List.intercalate_cons_cons, List.intercalate_cons_cons]
        simp only [List.append_assoc]

theorem flatMap_keepPiece (pieces : List Bytes) :
    pieces.flatMap (keepPiece true false) = pieces.filter fun piece => piece ≠ [] := by
  induction pieces with
  | nil => rfl
  | cons piece pieces inductionHypothesis =>
    rw [List.flatMap_cons, inductionHypothesis, keepPiece]
    cases piece with
    | nil => rfl
    | cons byte rest => rfl

theorem join_kept_iff {delimiter : Bytes} (nonempty : delimiter ≠ []) {str : Bytes}
    {pieces : List Bytes} (joined : delimiter.intercalate pieces = str) :
    join (pieces.flatMap (keepPiece true false)) delimiter = str ↔ str = [] ∨ [] ∉ pieces := by
  rw [join_eq_intercalate, flatMap_keepPiece, ← joined]
  exact intercalate_filter_eq_iff nonempty pieces

/-- `split_by` with a character returns what is wanted of the pieces. -/
theorem splitByChar_eq {str : Bytes} (filled : str ≠ []) (c : UInt8)
    (includeEmpty needTrim : Bool) :
    splitByChar str c.toInt8.toInt32 includeEmpty needTrim =
      some ((str.splitOn c).flatMap (keepPiece includeEmpty needTrim)) := by
  have converted : c.toInt8.toInt32.toInt8.toUInt8 = c := by
    rw [Int8.toInt8_toInt32]
    rfl
  have one : (fun byte => [c].contains byte) = fun byte => byte == c := by
    funext byte
    rw [List.contains_cons, List.contains_nil, Bool.or_false]
  rw [splitByChar, converted, splitByAnyOf_eq filled, one, List.splitOn_eq_splitOnP]

/-- Splitting with empty pieces included, and joining again, gives the string back exactly if the
string is empty or no two places at which it is cut touch each other, its start or its end. -/
theorem split_join_iff (str delim : Bytes) (c : UInt8) (nonempty : delim ≠ []) :
    ((∃ rounds pieces, splitBy rounds str delim true false = some pieces ∧
        join pieces delim = str) ↔ str = [] ∨ [] ∉ parts delim str) ∧
    ((∃ pieces, splitByChar str c.toInt8.toInt32 true false = some pieces ∧
        join pieces [c] = str) ↔ str = [] ∨ [] ∉ str.splitOn c) := by
  by_cases empty : str = []
  · subst empty
    exact ⟨iff_of_true ⟨0, [[]], rfl, rfl⟩ (.inl rfl), iff_of_true ⟨[[]], rfl, rfl⟩ (.inl rfl)⟩
  constructor
  · rw [← join_kept_iff nonempty (intercalate_parts nonempty str)]
    constructor
    · rintro ⟨rounds, pieces, returned, joined⟩
      obtain ⟨-, rfl⟩ := (splitBy_eq_some_iff empty nonempty true false rounds pieces).mp returned
      exact joined
    · intro joined
      exact ⟨_, _, (splitBy_eq_some_iff empty nonempty true false _ _).mpr ⟨le_rfl, rfl⟩, joined⟩
  · rw [← join_kept_iff (List.cons_ne_nil c []) (List.intercalate_splitOn c),
      splitByChar_eq empty]
    constructor
    · rintro ⟨pieces, returned, joined⟩
      rw [Option.some.inj returned]
      exact joined
    · intro joined
      exact ⟨_, rfl, joined⟩

/-- A string with two pieces that are not empty comes back. -/
theorem split_join_iff_twoPieces :
    (∃ rounds pieces, splitBy rounds (ascii "a, b") (ascii ", ") true false = some pieces ∧
        join pieces (ascii ", ") = ascii "a, b") ∧
      ∃ pieces, splitByChar (ascii "a, b") (44 : UInt8).toInt8.toInt32 true false = some pieces ∧
        join pieces [44] = ascii "a, b" := by
  obtain ⟨byString, byChar⟩ := split_join_iff (ascii "a, b") (ascii ", ") 44 (by decide)
  exact ⟨byString.mpr (.inr (by decide)), byChar.mpr (.inr (by decide))⟩

/-- An empty piece is left out although it was asked for, with either kind of delimiter. -/
theorem emptyPiece_leftOut :
    splitBy 3 (ascii "a,,b") (ascii ",") true false = some [ascii "a", ascii "b"] ∧
      splitByChar (ascii "a,,b") 44 true false = some [ascii "a", ascii "b"] ∧
      join [ascii "a", ascii "b"] (ascii ",") = ascii "a,b" ∧ ascii "a,b" ≠ ascii "a,,b" := by
  decide

/-! ### Coming to an end -/

theorem length_keepPiece_le (includeEmpty needTrim : Bool) (piece : Bytes) :
    (keepPiece includeEmpty needTrim piece).length ≤ 1 := by
  have atMostOne (wanted : Bool) (s : Bytes) : (if wanted then [s] else []).length ≤ 1 := by
    cases wanted with
    | true => exact le_rfl
    | false => exact Nat.zero_le 1
  rw [keepPiece]
  by_cases filled : piece.length ≠ 0
  · rw [if_pos filled]
    exact atMostOne _ _
  · rw [if_neg filled]
    exact Nat.zero_le 1

theorem length_flatMap_keepPiece_le (includeEmpty needTrim : Bool) (pieces : List Bytes) :
    (pieces.flatMap (keepPiece includeEmpty needTrim)).length ≤ pieces.length := by
  induction pieces with
  | nil => exact le_rfl
  | cons piece pieces inductionHypothesis =>
    have here := length_keepPiece_le includeEmpty needTrim piece
    rw [List.flatMap_cons, List.length_append, List.length_cons]
    omega

/-- The empty string is found where the search begins. -/
theorem findFrom_nil {str : Bytes} {seek : ℕ} (inside : seek ≤ str.length) :
    findFrom str [] seek = some seek := by
  have here : occurrence [] (str.drop seek) = some 0 := by
    cases str.drop seek with
    | nil => rfl
    | cons letter rest => rfl
  rw [findFrom_of_le [] inside, here]
  rfl

theorem countLoop_nil {str : Bytes} {seek : ℕ} (inside : seek ≤ str.length) (rounds num : ℕ) :
    countLoop str [] rounds num seek = none := by
  induction rounds generalizing num with
  | zero => rfl
  | succ rounds inductionHypothesis =>
    rw [countLoop, findFrom_nil inside]
    exact inductionHypothesis (num + 1)

/-- `split_by` returns, with at most one piece more than the string has characters, exactly if the
delimiter is not empty or the string is. -/
theorem splitBy_returns_iff (str delim : Bytes) (includeEmpty needTrim : Bool) :
    (∃ rounds pieces, splitBy rounds str delim includeEmpty needTrim = some pieces ∧
        pieces.length ≤ str.length + 1) ↔ str = [] ∨ delim ≠ [] := by
  by_cases empty : str = []
  · subst empty
    refine iff_of_true ⟨0, _, rfl, ?_⟩ (.inl rfl)
    cases includeEmpty with
    | true => exact le_rfl
    | false => exact Nat.zero_le 1
  · constructor
    · rintro ⟨rounds, pieces, returned, -⟩
      refine .inr fun nothing => ?_
      rw [nothing, splitBy, if_neg (isEmpty_of_ne_nil empty), countLoop_nil (Nat.zero_le _)]
        at returned
      exact absurd returned (Option.some_ne_none pieces).symm
    · intro either
      have nonempty := either.resolve_left empty
      refine ⟨_, _, (splitBy_eq_some_iff empty nonempty includeEmpty needTrim _ _).mpr
        ⟨le_rfl, rfl⟩, ?_⟩
      exact (length_flatMap_keepPiece_le includeEmpty needTrim _).trans
        (length_parts_le nonempty str)

/-- With an empty delimiter `split_by` does not return for a string of one character. -/
theorem emptyDelimiter_neverReturns :
    ¬∃ rounds pieces, splitBy rounds (ascii "a") [] false true = some pieces := by
  rintro ⟨rounds, pieces, returned⟩
  rw [splitBy, if_neg (by decide), countLoop_nil (Nat.zero_le _)] at returned
  exact absurd returned (Option.some_ne_none pieces).symm

/-! ### One way of splitting -/

/-- `utils::split_if`. Its loop takes one piece off the front in each round. -/
def splitIf (str : Bytes) (p : UInt8 → Bool) (needTrim : Bool) : List Bytes :=
  if str.isEmpty then []
  else
    let pos := (str.findIdx? p).getD str.length
    let part := if needTrim then trim (str.take pos) else str.take pos
    let later := splitIf (str.drop (min (pos + 1) str.length)) p needTrim
    if !part.isEmpty then part :: later else later
termination_by str.length
decreasing_by
  rename_i filled
  have positive := List.length_pos_iff.mpr fun empty => filled (List.isEmpty_iff.mpr empty)
  rw [List.length_drop]
  omega

/-- If empty pieces are not wanted, a piece is kept if something is left of it. -/
theorem keepPiece_false (needTrim : Bool) (piece : Bytes) :
    keepPiece false needTrim piece =
      if !(if needTrim then trim piece else piece).isEmpty then
        [if needTrim then trim piece else piece]
      else [] := by
  cases piece with
  | nil =>
    cases needTrim with
    | false => rfl
    | true => rfl
  | cons byte rest => rfl

theorem splitIf_nil (p : UInt8 → Bool) (needTrim : Bool) : splitIf [] p needTrim = [] := by
  rw [splitIf]
  rfl

theorem splitIf_of_ne_nil {str : Bytes} (filled : str ≠ []) (p : UInt8 → Bool) (needTrim : Bool) :
    splitIf str p needTrim =
      keepPiece false needTrim (str.take ((str.findIdx? p).getD str.length)) ++
        splitIf (str.drop (min ((str.findIdx? p).getD str.length + 1) str.length)) p needTrim := by
  rw [splitIf, if_neg (isEmpty_of_ne_nil filled), keepPiece_false]
  generalize (str.findIdx? p).getD str.length = pos
  simp only
  generalize (if needTrim then trim (str.take pos) else str.take pos) = part
  cases part with
  | nil => rfl
  | cons byte rest => rfl

/-- `split_if` returns what is left of the pieces. -/
theorem splitIf_eq (str : Bytes) (p : UInt8 → Bool) (needTrim : Bool) :
    splitIf str p needTrim = (str.splitOnP p).flatMap (keepPiece false needTrim) := by
  induction size : str.length using Nat.strong_induction_on generalizing str with
  | _ length inductionHypothesis =>
    by_cases empty : str = []
    · rw [empty, splitIf_nil]
      cases needTrim with
      | false => rfl
      | true => rfl
    rw [splitIf_of_ne_nil empty]
    cases found : str.findIdx? p with
    | none =>
      rw [List.splitOnP_eq_singleton (List.findIdx?_eq_none_iff.mp found), List.flatMap_singleton,
        Option.getD_none, List.take_length, Nat.min_eq_right (Nat.le_succ _), List.drop_length,
        splitIf_nil, List.append_nil]
    | some position =>
      obtain ⟨inside, cut⟩ := splitOnP_of_found found
      have shorter : (str.drop (position + 1)).length < length := by
        rw [List.length_drop]
        omega
      rw [cut, List.flatMap_cons, Option.getD_some, Nat.min_eq_left inside,
        inductionHypothesis _ shorter _ rfl]

/-- With one character as the delimiter, `split_by` returns what is wanted of the pieces. -/
theorem splitBy_singleton {str : Bytes} (filled : str ≠ []) (c : UInt8)
    (includeEmpty needTrim : Bool) {rounds : ℕ} (enough : (str.splitOn c).length ≤ rounds) :
    splitBy rounds str [c] includeEmpty needTrim =
      some ((str.splitOn c).flatMap (keepPiece includeEmpty needTrim)) := by
  rw [splitBy_eq filled (List.cons_ne_nil c []), parts_singleton, if_pos enough]

/-- For every string: `split_if` agrees with `split_by_any_of` on every set of delimiters, and with
one character as the delimiter the three ways to split by it return the same pieces. An `int`
stands for the character it is converted to. -/
theorem splitters_agree (str : Bytes) :
    (∀ (delim : Bytes) (needTrim : Bool),
      splitByAnyOf str delim false needTrim =
        some (splitIf str (fun c => delim.contains c) needTrim)) ∧
    ∀ (c : UInt8) (delim : Int32) (includeEmpty needTrim : Bool), delim.toInt8.toUInt8 = c →
      ∃ pieces,
        (∃ enough, ∀ rounds, enough ≤ rounds →
          splitBy rounds str [c] includeEmpty needTrim = some pieces) ∧
        splitByChar str delim includeEmpty needTrim = some pieces ∧
        splitByAnyOf str [c] includeEmpty needTrim = some pieces := by
  by_cases empty : str = []
  · subst empty
    refine ⟨fun delim needTrim => ?_, fun c delim includeEmpty needTrim _ => ?_⟩
    · rw [splitIf_nil]
      rfl
    · exact ⟨_, ⟨0, fun _ _ => rfl⟩, rfl, rfl⟩
  · refine ⟨fun delim needTrim => ?_, fun c delim includeEmpty needTrim converted => ?_⟩
    · rw [splitByAnyOf_eq empty, splitIf_eq]
    · have one := splitByChar_eq empty c includeEmpty needTrim
      rw [splitByChar, Int8.toInt8_toInt32] at one
      refine ⟨_, ⟨_, fun rounds => splitBy_singleton empty c includeEmpty needTrim⟩, ?_, one⟩
      rw [splitByChar, converted]
      exact one

/-- A set of two delimiters, and one that is a negative `char`. -/
theorem splitters_agree_blanks :
    splitByAnyOf (ascii "a, b;") (ascii ",;") false true =
        some (splitIf (ascii "a, b;") (fun c => (ascii ",;").contains c) true) ∧
      ∃ pieces,
        (∃ enough, ∀ rounds, enough ≤ rounds →
          splitBy rounds (ascii "a, b;") [0xa0] true true = some pieces) ∧
        splitByChar (ascii "a, b;") (-96) true true = some pieces ∧
        splitByAnyOf (ascii "a, b;") [0xa0] true true = some pieces := by
  obtain ⟨sets, characters⟩ := splitters_agree (ascii "a, b;")
  exact ⟨sets (ascii ",;") true, characters 0xa0 (-96) true true (by decide)⟩

end NativeLibs
