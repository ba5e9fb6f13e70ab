/-
This file embeds `common/url.cpp`. `normalize_path` copies a path segment by
segment, drops a segment that is a dot and takes the last segment away for a
double dot. It leaves a text alone in which no dot is followed by a slash, it
does not look at the last segment, and it takes every segment that begins with
two dots for a double dot. For a text with a scheme it works on what follows the
authority and puts the two parts together again.

What it should do to a path is the procedure of RFC 3986. The two agree exactly
where these three differences do not matter.
-/

import NativeLibs.Library.DotSegments
import NativeLibs.Text.Split

namespace NativeLibs.Url

open Library

/-! ### The code -/

/-- `'/'`. -/
def slash : UInt8 := 47

/-- `'.'`. -/
def dot : UInt8 := 46

/-- `'?'` or `'#'`, behind which there is no path. -/
def endsPath (byte : UInt8) : Bool := byte = 63 || byte = 35

/-- `combine_path`. It is the first character of the left part that goes. -/
def combinePath (l r : Bytes) : Bytes :=
  let l := if [slash].isSuffixOf l then l.drop 1 else l
  let r := if [slash].isPrefixOf r then r.drop 1 else r
  l ++ [slash] ++ r

/-- Where `normalize_path` starts: behind the first slash after `"//"`, if there is one. -/
def startIndex (path : Bytes) : Nat :=
  match findFrom path [slash, slash] 0 with
  | none => 0
  | some protocolIndex =>
    let idxToFind := if path.length < protocolIndex + 2 then path.length else protocolIndex + 2
    match findFrom path [slash] idxToFind with
    | none => 0
    | some segmentsStartIdx =>
      if path.length < segmentsStartIdx + 1 then path.length else segmentsStartIdx + 1

/-- What a segment that has ended does to `output`. -/
def endSegment (output : List Bytes) (segment : Bytes) : List Bytes :=
  if segment = [dot, dot] ∨ segment = [dot] ∨ segment = [slash, dot] then output
  else if [slash, dot, dot].isPrefixOf segment then
    if output.isEmpty then output else output.dropLast
  else output ++ [segment]

/-- The loop of `normalize_path` over the characters from an index on, with `output` and the
contents of `segment_builder`. -/
def segmentLoop : Nat → Bytes → List Bytes → Bytes → List Bytes × Bytes
  | _, [], output, builder => (output, builder)
  | index, byte :: rest, output, builder =>
    if endsPath byte then (output ++ [builder ++ byte :: rest], [])
    else if byte ≠ slash ∨ index = 0 then
      segmentLoop (index + 1) rest output (builder ++ [byte])
    else segmentLoop (index + 1) rest (endSegment output builder) [byte]

/-- What is left in `segment_builder` becomes the last segment, and all of them are joined. -/
def joinSegments (output : List Bytes) (builder : Bytes) : Bytes :=
  let output := if builder.isEmpty then output else output ++ [builder]
  output.flatten

/-- `url::normalize_path`. -/
def normalizePath (path : Bytes) : Bytes :=
  if path.isEmpty then path
  else if findFrom path [dot, slash] 0 = none then path
  else
    let start := startIndex path
    let (output, builder) := segmentLoop start (path.drop start) [] []
    combinePath (path.take start) (joinSegments output builder)

/-! ### The loop -/

/-- A segment begins with two dots. -/
def beginsWithDots (segment : Bytes) : Bool := [dot, dot].isPrefixOf segment

theorem beginsWithDots_of_isDoubleDot (segment : Bytes)
    (isParent : isDoubleDot dot segment = true) : beginsWithDots segment = true := by
  rw [of_decide_eq_true isParent]
  rfl

theorem beginsWithDots_eq_isDoubleDot_iff (segment : Bytes) :
    beginsWithDots segment = isDoubleDot dot segment ↔
      (beginsWithDots segment = true → segment = [dot, dot]) := by
  have doubleDot : isDoubleDot dot segment = true ↔ segment = [dot, dot] := decide_eq_true_iff
  rw [Bool.eq_iff_iff, ← doubleDot]
  exact ⟨Iff.mp, fun begins => ⟨begins, beginsWithDots_of_isDoubleDot segment⟩⟩

/-- The segments of `output`, of which each has its slash. -/
def slashed (segments : List Bytes) : List Bytes := segments.map fun segment => slash :: segment

theorem segmentLoop_text (index : Nat) (text rest : Bytes) (output : List Bytes) (builder : Bytes)
    (plain : ∀ byte ∈ text, byte ≠ slash ∧ endsPath byte = false) :
    segmentLoop index (text ++ rest) output builder =
      segmentLoop (index + text.length) rest output (builder ++ text) := by
  induction text generalizing index builder with
  | nil => rw [List.append_nil]; rfl
  | cons byte text inductionHypothesis =>
    rw [List.forall_mem_cons] at plain
    rw [List.cons_append, segmentLoop, plain.1.2, if_neg Bool.false_ne_true,
      if_pos (.inl plain.1.1), inductionHypothesis _ _ plain.2, List.append_assoc,
      List.singleton_append, List.length_cons, Nat.add_assoc, Nat.add_comm 1]

theorem segmentLoop_slash {index : Nat} (inside : index ≠ 0) (rest : Bytes) (output : List Bytes)
    (builder : Bytes) :
    segmentLoop index (slash :: rest) output builder =
      segmentLoop (index + 1) rest (endSegment output builder) [slash] := by
  have onwards : ¬(slash ≠ slash ∨ index = 0) := by
    rintro (different | start)
    · exact different rfl
    · exact inside start
  rw [segmentLoop, if_neg (by decide : ¬endsPath slash = true), if_neg onwards]

/-- A segment that has ended does to `output` what the walk over the segments does, if every segment
that begins with two dots is a parent. -/
theorem endSegment_slashed (kept : List Bytes) (segment : Bytes) :
    endSegment (slashed kept) (slash :: segment) =
      slashed (keep dot beginsWithDots kept segment) := by
  have different : slash ≠ dot := by decide
  have emptied : (if (slashed kept).isEmpty then slashed kept else (slashed kept).dropLast) =
      slashed kept.dropLast := by
    cases kept with
    | nil => rfl
    | cons first rest => exact List.map_dropLast.symm
  have isDot : slash :: segment = [dot, dot] ∨ slash :: segment = [dot] ∨
      slash :: segment = [slash, dot] ↔ segment = [dot] := by
    simp [different]
  have isParent : [slash, dot, dot].isPrefixOf (slash :: segment) = beginsWithDots segment := by
    simp [beginsWithDots, List.isPrefixOf]
  unfold endSegment keep
  simp only [isDot, isParent, emptied]
  split
  · rfl
  · split
    · rfl
    · rw [slashed, slashed, List.map_append, List.map_singleton]

/-- The loop over the segments behind the first slash. -/
theorem segmentLoop_render (inner : List Bytes) (last : Bytes)
    (plain : ∀ segment ∈ inner ++ [last], ∀ byte ∈ segment, byte ≠ slash ∧ endsPath byte = false)
    {index : Nat} (inside : index ≠ 0) (query : Bytes) (kept : List Bytes) :
    ∃ later, segmentLoop index ((render slash (inner ++ [last])).tail ++ query) (slashed kept)
        [slash] =
      segmentLoop later query (slashed (inner.foldl (keep dot beginsWithDots) kept))
        (slash :: last) := by
  induction inner generalizing index kept with
  | nil =>
    have single : (render slash ([] ++ [last])).tail = last := List.append_nil last
    rw [single, segmentLoop_text index last query _ _ (plain last List.mem_cons_self)]
    exact ⟨_, rfl⟩
  | cons segment inner inductionHypothesis =>
    rw [List.cons_append, List.forall_mem_cons] at plain
    obtain ⟨rest, isPath⟩ := render_eq_cons slash inner last
    have ended := endSegment_slashed kept segment
    have later := inductionHypothesis plain.2 (Nat.succ_ne_zero (index + segment.length))
      (keep dot beginsWithDots kept segment)
    rw [isPath, List.tail_cons, ← ended] at later
    rw [List.cons_append, render_cons, List.tail_cons, isPath, List.append_assoc,
      segmentLoop_text index segment _ _ _ plain.1, List.cons_append, List.singleton_append,
      segmentLoop_slash (by omega)]
    exact later

/-- What the loop leaves when it comes to the end of the path. -/
theorem joinSegments_query {query : Bytes}
    (ends : query = [] ∨ ∃ byte rest, query = byte :: rest ∧ endsPath byte = true) (index : Nat)
    (output : List Bytes) (last : Bytes) :
    joinSegments (segmentLoop index query output (slash :: last)).1
        (segmentLoop index query output (slash :: last)).2 =
      output.flatten ++ slash :: (last ++ query) := by
  rcases ends with rfl | ⟨byte, rest, rfl, stops⟩
  · simp [segmentLoop, joinSegments]
  · simp [segmentLoop, joinSegments, stops]

/-! ### Paths -/

/-- The part of a text before the first `?` or `#`. -/
def pathPart (path : Bytes) : Bytes := path.takeWhile fun byte => !endsPath byte

/-- The rest of the text. -/
def queryPart (path : Bytes) : Bytes := path.dropWhile fun byte => !endsPath byte

theorem pathPart_append_queryPart (path : Bytes) : pathPart path ++ queryPart path = path :=
  List.takeWhile_append_dropWhile

theorem head?_pathPart {path : Bytes} (absolute : path.head? = some slash) :
    (pathPart path).head? = some slash := by
  cases path with
  | nil => cases absolute
  | cons byte rest =>
    obtain rfl := Option.some.inj absolute
    rfl

theorem queryPart_ends (path : Bytes) :
    queryPart path = [] ∨ ∃ byte rest, queryPart path = byte :: rest ∧ endsPath byte = true := by
  cases query : queryPart path with
  | nil => exact .inl rfl
  | cons byte rest =>
    refine .inr ⟨byte, rest, rfl, ?_⟩
    have stops := List.head?_dropWhile_not (fun byte => !endsPath byte) path
    rw [← queryPart, query] at stops
    exact (Bool.not_eq_eq_eq_not.mp stops)

theorem segments_plain {path : Bytes} (absolute : path.head? = some slash) :
    ∀ segment ∈ innerSegments slash (pathPart path) ++ [lastSegment slash (pathPart path)],
      ∀ byte ∈ segment, byte ≠ slash ∧ endsPath byte = false := by
  intro segment member byte there
  refine ⟨fun same => notMem_of_mem_segments slash _ segment member (same ▸ there), ?_⟩
  have inPath : byte ∈ pathPart path := by
    rw [← render_segments slash (head?_pathPart absolute)]
    exact List.mem_flatten.mpr
      ⟨slash :: segment, List.mem_map.mpr ⟨segment, member, rfl⟩, List.mem_cons_of_mem _ there⟩
  have inside := List.mem_takeWhile_imp (p := fun byte => !endsPath byte) inPath
  exact Bool.not_eq_eq_eq_not.mp inside

/-- Without `"./"` a text is left alone. -/
theorem normalizePath_of_noDotSlash {path : Bytes} (absent : ¬[dot, slash] <:+: path) :
    normalizePath path = path := by
  rw [normalizePath, if_pos ((findFrom_zero_eq_none_iff _ _).mpr absent), ite_self]

/-- What becomes of a path in which there is a `"./"`. -/
theorem normalizePath_of_dotSlash {path : Bytes} (absolute : path.head? = some slash)
    (single : ¬[slash, slash] <:+: path) (present : [dot, slash] <:+: path) :
    normalizePath path =
      render slash (retained dot beginsWithDots (innerSegments slash (pathPart path)) ++
        [lastSegment slash (pathPart path)]) ++ queryPart path := by
  have nonempty : ¬path.isEmpty = true := by
    intro empty
    rw [List.isEmpty_iff.mp empty] at absolute
    cases absolute
  have found : ¬findFrom path [dot, slash] 0 = none := by
    rw [findFrom_zero_eq_none_iff, not_not]
    exact present
  have start : startIndex path = 0 := by
    rw [startIndex, (findFrom_zero_eq_none_iff _ _).mpr single]
  have whole := render_segments slash (head?_pathPart absolute)
  obtain ⟨rest, isPath⟩ := render_eq_cons slash (innerSegments slash (pathPart path))
    (lastSegment slash (pathPart path))
  -- the slash at index 0 does not end a segment
  have first : segmentLoop 0 path [] [] =
      segmentLoop 1 (rest ++ queryPart path) (slashed []) [slash] := by
    have parts := pathPart_append_queryPart path
    rw [← whole, isPath, List.cons_append] at parts
    exact congrArg (fun text => segmentLoop 0 text [] []) parts.symm
  obtain ⟨later, looped⟩ := segmentLoop_render (innerSegments slash (pathPart path))
    (lastSegment slash (pathPart path)) (segments_plain absolute) Nat.one_ne_zero (queryPart path) []
  rw [isPath, List.tail_cons, ← first] at looped
  have joined := joinSegments_query (queryPart_ends path) later
    (slashed (retained dot beginsWithDots (innerSegments slash (pathPart path))))
    (lastSegment slash (pathPart path))
  obtain ⟨more, result⟩ := render_eq_cons slash
    (retained dot beginsWithDots (innerSegments slash (pathPart path)))
    (lastSegment slash (pathPart path))
  rw [normalizePath, if_neg nonempty, if_neg found]
  simp only [start, List.drop_zero, List.take_zero]
  rw [looped]
  calc combinePath [] (joinSegments _ _)
      = combinePath [] ((slashed (retained dot beginsWithDots
          (innerSegments slash (pathPart path)))).flatten ++
          slash :: (lastSegment slash (pathPart path) ++ queryPart path)) :=
        congrArg (combinePath []) joined
    _ = combinePath [] (slash :: more ++ queryPart path) := by
        rw [← result, render_concat, List.append_assoc]
        rfl
    _ = _ := by
        rw [result]
        rfl

/-- For every path that starts with a slash and has no two slashes in a row: `normalize_path` takes
the dot segments out of what precedes a query or a fragment as RFC 3986 says exactly if the last
segment is no dot segment and, where there is a `"./"` at all, every segment that only begins with
two dots is in a first part of the path of which nothing is left. -/
theorem normalizePath_rfc_iff (path : Bytes) (absolute : path.head? = some slash)
    (single : ¬[slash, slash] <:+: path) :
    normalizePath path = removeDotSegments slash dot (pathPart path) ++ queryPart path ↔
      lastSegment slash (pathPart path) ≠ [dot] ∧ lastSegment slash (pathPart path) ≠ [dot, dot] ∧
        ([dot, slash] <:+: path →
          ∃ before after, innerSegments slash (pathPart path) = before ++ after ∧
            retained dot (isDoubleDot dot) before = [] ∧
            ∀ segment ∈ after, beginsWithDots segment = true → segment = [dot, dot]) := by
  have different : dot ≠ slash := by decide
  have pathAbsolute := head?_pathPart absolute
  have innerFree : ∀ segment ∈ innerSegments slash (pathPart path), slash ∉ segment :=
    fun segment member => notMem_of_mem_segments slash _ segment (List.mem_append_left _ member)
  by_cases present : [dot, slash] <:+: path
  · rw [normalizePath_of_dotSlash absolute single present, List.append_left_inj,
      render_eq_removeDotSegments_iff different pathAbsolute
        fun segment member => innerFree segment (mem_of_mem_retained member),
      retained_eq_iff beginsWithDots_of_isDoubleDot rfl, forall_prop_of_true present]
    simp only [beginsWithDots_eq_isDoubleDot_iff]
  · have whole := render_segments slash pathAbsolute
    -- an inner dot segment would be followed by a slash
    have plain : ∀ segment ∈ innerSegments slash (pathPart path),
        segment ≠ [dot] ∧ isDoubleDot dot segment = false := by
      intro segment member
      have noDot : ¬[dot] <:+ segment := by
        intro ends
        have inside : [dot, slash] <:+: render slash _ :=
          infix_of_mem (lastSegment slash (pathPart path)) member ends
        rw [whole] at inside
        exact present (inside.trans (List.takeWhile_prefix _).isInfix)
      refine ⟨fun same => noDot (same ▸ List.suffix_rfl), decide_eq_false fun same => ?_⟩
      exact noDot (same ▸ List.suffix_append [dot] [dot])
    have unchanged : normalizePath path = render slash (innerSegments slash (pathPart path) ++
        [lastSegment slash (pathPart path)]) ++ queryPart path := by
      rw [whole, pathPart_append_queryPart, normalizePath_of_noDotSlash present]
    rw [unchanged, List.append_left_inj,
      render_eq_removeDotSegments_iff different pathAbsolute innerFree, retained_eq_self plain,
      eq_self_iff_true, forall_prop_of_false present]

/-- A path with a query: of `/..a/..`, which it begins with, nothing is left. -/
theorem normalizePath_rfc_iff_query :
    normalizePath (ascii "/..a/../b/../c?./") =
      removeDotSegments slash dot (pathPart (ascii "/..a/../b/../c?./")) ++
        queryPart (ascii "/..a/../b/../c?./") :=
  (normalizePath_rfc_iff (ascii "/..a/../b/../c?./") (by decide) (by decide)).mpr
    ⟨by decide, by decide, fun _ =>
      ⟨[ascii "..a", ascii ".."], [ascii "b", ascii ".."], by decide, by decide, by decide⟩⟩

/-- The path `/a/..` stays as it is, and only `/` should be left of it. -/
theorem lastDoubleDot_stays :
    normalizePath (ascii "/a/..") = ascii "/a/.." ∧
      removeDotSegments slash dot (pathPart (ascii "/a/..")) ++ queryPart (ascii "/a/..") =
        ascii "/" := by
  decide

/-! ### Texts with a scheme -/

/-- The first part of a text with a scheme and an authority. -/
def origin (scheme authority : Bytes) : Bytes := scheme ++ ascii "://" ++ authority ++ [slash]

theorem startIndex_origin {scheme authority : Bytes} (schemeFree : slash ∉ scheme)
    (authorityFree : slash ∉ authority) (rest : Bytes) :
    startIndex (origin scheme authority ++ rest) = (origin scheme authority).length := by
  have colonFree : slash ∉ scheme ++ [58] := by
    rw [List.mem_append, not_or]
    exact ⟨schemeFree, by decide⟩
  have protocol : findFrom (origin scheme authority ++ rest) [slash, slash] 0 =
      some (scheme.length + 1) := by
    have found := findFrom_append [] (scheme ++ [58]) [slash] (authority ++ slash :: rest) colonFree
    simpa [origin, ascii, slash] using found
  have segments : findFrom (origin scheme authority ++ rest) [slash] (scheme.length + 3) =
      some (scheme.length + 3 + authority.length) := by
    have found := findFrom_append (scheme ++ ascii "://") authority [] rest authorityFree
    simpa [origin, ascii, slash] using found
  have length : (origin scheme authority).length = scheme.length + 3 + authority.length + 1 := by
    simp only [origin, List.length_append, List.length_singleton]
    rfl
  have whole : (origin scheme authority ++ rest).length =
      scheme.length + 3 + authority.length + 1 + rest.length := by
    rw [List.length_append, length]
  rw [startIndex, protocol]
  simp only [whole]
  rw [if_neg (by omega), segments]
  simp only
  rw [if_neg (by omega), length]

/-- A word that moves up by one letter when its first letter goes consists of the letter that
follows it. -/
theorem eq_of_cons_eq_append {first last : UInt8} {word : Bytes}
    (same : first :: word = word ++ [last]) : first = last := by
  induction word generalizing first with
  | nil => exact (List.cons.inj same).1
  | cons second word inductionHypothesis =>
    rw [List.cons_append] at same
    obtain ⟨rfl, rest⟩ := List.cons.inj same
    exact inductionHypothesis rest

/-- What is left of the first part when there is a `"./"`. -/
theorem normalizePath_origin {scheme authority rest : Bytes} (schemeFree : slash ∉ scheme)
    (authorityFree : slash ∉ authority)
    (present : [dot, slash] <:+: origin scheme authority ++ rest) :
    ∃ more, normalizePath (origin scheme authority ++ rest) =
      (origin scheme authority).tail ++ slash :: more := by
  have nonempty : ¬(origin scheme authority ++ rest).isEmpty = true := by
    simp [origin]
  have found : ¬findFrom (origin scheme authority ++ rest) [dot, slash] 0 = none := by
    rw [findFrom_zero_eq_none_iff, not_not]
    exact present
  have ends : [slash].isSuffixOf (origin scheme authority) = true :=
    List.isSuffixOf_iff_suffix.mpr (List.suffix_append _ _)
  rw [normalizePath, if_neg nonempty, if_neg found, startIndex_origin schemeFree authorityFree]
  simp only [List.take_left, combinePath, if_pos ends, List.drop_one, List.append_assoc,
    List.singleton_append]
  exact ⟨_, rfl⟩

/-- For every text with a scheme, which is not empty, and an authority, both without a slash:
`normalize_path` keeps them with the slash behind them exactly if there is no `"./"` in the text. -/
theorem normalizePath_origin_iff (scheme authority rest : Bytes) (nonempty : scheme ≠ [])
    (schemeFree : slash ∉ scheme) (authorityFree : slash ∉ authority) :
    origin scheme authority <+: normalizePath (origin scheme authority ++ rest) ↔
      ¬[dot, slash] <:+: origin scheme authority ++ rest := by
  constructor
  · intro kept present
    obtain ⟨more, normalized⟩ := normalizePath_origin schemeFree authorityFree present
    obtain ⟨first, others, rfl⟩ := List.exists_cons_of_ne_nil nonempty
    obtain ⟨tail, split⟩ : ∃ tail, origin (first :: others) authority = first :: tail := ⟨_, rfl⟩
    rw [normalized, split, List.tail_cons, List.append_cons] at kept
    -- both have the length of the first part
    have same : first :: tail = tail ++ [slash] :=
      (List.prefix_of_prefix_length_le kept (List.prefix_append _ _) (by simp)).eq_of_length
        (by simp)
    exact schemeFree (eq_of_cons_eq_append same ▸ List.mem_cons_self)
  · intro absent
    rw [normalizePath_of_noDotSlash absent]
    exact List.prefix_append _ _

/-- A URL without dot segments. -/
theorem normalizePath_origin_iff_plain :
    origin (ascii "http") (ascii "a.org") <+:
      normalizePath (origin (ascii "http") (ascii "a.org") ++ ascii "b?c") :=
  (normalizePath_origin_iff (ascii "http") (ascii "a.org") (ascii "b?c") (by decide) (by decide)
    (by decide)).mpr (by decide)

/-- The first letter of `http` gets lost. -/
theorem schemeLetter_lost :
    normalizePath (origin (ascii "http") (ascii "a.org") ++ ascii "b/../c") =
        ascii "ttp://a.org//c" ∧
      ¬origin (ascii "http") (ascii "a.org") <+:
        normalizePath (origin (ascii "http") (ascii "a.org") ++ ascii "b/../c") := by
  decide

end NativeLibs.Url
