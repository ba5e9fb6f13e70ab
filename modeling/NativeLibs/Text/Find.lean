/-
This file shows that `utils::ifind` finds the first occurrence of a string in
another one, with no regard to case. Its two nested loops share one position, which
the inner loop moves on while it looks for the first letter of the needle. Here a
string view is read through positions, and a read beyond its end is a result of its
own, so that it can be shown not to happen.

The search over the rest of the haystack that the protocol code uses comes to the
same result. A regular expression with a shortcut is one of the callers: it gives up
early on a text that does not have the shortcut, which changes nothing if every text
that matches has it.
-/

import Mathlib.Order.Bounds.Basic
import NativeLibs.Text.RegexMatch
import NativeLibs.Text.Split

namespace NativeLibs

/-! ### The loops of the search -/

namespace Views

open Regex (substr)

/-- What a search in a string view comes to. -/
inductive Search where
  | outside
  | npos
  | position (pos : ℕ)
  deriving DecidableEq

/-- The inner loop of `utils::ifind`, which stops behind the next first letter of a needle of some
size. -/
def skipTo (c : UInt8) (haystack : Bytes) (size pos : ℕ) : Search :=
  if haystack.length ≤ pos ∨ haystack.length - pos < size then .npos
  else
    match haystack[pos]? with
    | none => .outside
    | some byte =>
      if toLower byte ≠ c then skipTo c haystack size (pos + 1) else .position (pos + 1)
termination_by haystack.length - pos
decreasing_by omega

theorem skipTo_of_short {c : UInt8} {haystack : Bytes} {size pos : ℕ}
    (short : haystack.length ≤ pos ∨ haystack.length - pos < size) :
    skipTo c haystack size pos = .npos := by
  rw [skipTo, if_pos short]

theorem skipTo_of_long {c : UInt8} {haystack : Bytes} {size pos : ℕ}
    (long : ¬(haystack.length ≤ pos ∨ haystack.length - pos < size)) {byte : UInt8}
    (here : haystack[pos]? = some byte) :
    skipTo c haystack size pos =
      if toLower byte ≠ c then skipTo c haystack size (pos + 1) else .position (pos + 1) := by
  rw [skipTo, if_neg long, here]

theorem lt_of_skipTo {c : UInt8} {haystack : Bytes} {size pos next : ℕ}
    (found : skipTo c haystack size pos = .position next) :
    pos < next ∧ next ≤ haystack.length := by
  fun_induction skipTo c haystack size pos with
  | case1 => cases found
  | case2 => cases found
  | case3 pos long byte here other inductionHypothesis =>
    have later := inductionHypothesis found
    exact ⟨Nat.lt_of_succ_lt later.1, later.2⟩
  | case4 pos long byte here same =>
    obtain rfl := Search.position.inj found
    exact ⟨Nat.lt_succ_self pos, by omega⟩

/-- The outer loop of `utils::ifind`. `substr` throws for a position behind the end; the needle's
own piece is all that is left of it. -/
def ifindLoop (c : UInt8) (haystack needle : Bytes) (pos : ℕ) : Search :=
  match _found : skipTo c haystack needle.length pos with
  | .outside => .outside
  | .npos => .npos
  | .position next =>
    match substr haystack next (needle.length - 1), substr needle 1 needle.length with
    | some piece, some rest =>
      if !iequals piece rest then ifindLoop c haystack needle next else .position (next - 1)
    | _, _ => .outside
termination_by haystack.length - pos
decreasing_by
  have moved := lt_of_skipTo _found
  omega

/-- `utils::ifind`. -/
def ifind (haystack needle : Bytes) : Search :=
  match needle with
  | [] => .position 0
  | front :: _ =>
    if haystack.isEmpty then .npos else ifindLoop (toLower front) haystack needle 0

/-- One round of the outer loop, by what the inner one comes to. -/
theorem ifindLoop_step (c : UInt8) (haystack : Bytes) {needle : Bytes} (nonempty : needle ≠ [])
    (pos : ℕ) :
    ifindLoop c haystack needle pos =
      match skipTo c haystack needle.length pos with
      | .outside => .outside
      | .npos => .npos
      | .position next =>
        if !iequals ((haystack.drop next).take (needle.length - 1)) needle.tail then
          ifindLoop c haystack needle next
        else .position (next - 1) := by
  have rest : substr needle 1 needle.length = some needle.tail := by
    rw [substr, if_neg (Nat.not_lt.mpr (List.length_pos_iff.mpr nonempty)), List.drop_one,
      List.take_of_length_le]
    rw [List.length_tail]
    exact Nat.sub_le _ _
  rw [ifindLoop]
  split
  · rename_i outside
    rw [outside]
  · rename_i missing
    rw [missing]
  · rename_i next found
    have piece : substr haystack next (needle.length - 1) =
        some ((haystack.drop next).take (needle.length - 1)) :=
      if_neg (Nat.not_lt.mpr (lt_of_skipTo found).2)
    rw [found, piece, rest]

/-- A position in the rest of the haystack as the result of a search. -/
def ofOption : Option ℕ → Search
  | none => .npos
  | some pos => .position pos

theorem ifindLoop_eq (c : UInt8) (haystack : Bytes) {needle : Bytes} (nonempty : needle ≠ [])
    (pos : ℕ) :
    ifindLoop c haystack needle pos =
      ofOption (NativeLibs.ifindLoop c needle pos (haystack.drop pos)) := by
  induction remaining : haystack.length - pos using Nat.strong_induction_on generalizing pos with
  | _ left inductionHypothesis =>
    cases rest : haystack.drop pos with
    | nil =>
      rw [ifindLoop_step c haystack nonempty,
        skipTo_of_short (.inl (List.drop_eq_nil_iff.mp rest))]
      rfl
    | cons byte others =>
      obtain ⟨inside, here, behind⟩ : pos < haystack.length ∧ haystack[pos]? = some byte ∧
          haystack.drop (pos + 1) = others := by
        have size := congrArg List.length rest
        rw [List.length_drop, List.length_cons] at size
        refine ⟨by omega, ?_, ?_⟩
        · rw [← List.head?_drop, rest, List.head?_cons]
        · rw [← List.tail_drop, rest, List.tail_cons]
      have size : (byte :: others).length = haystack.length - pos := by
        rw [← rest, List.length_drop]
      have later := inductionHypothesis (haystack.length - (pos + 1)) (by omega) (pos + 1) rfl
      rw [behind] at later
      rw [NativeLibs.ifindLoop, size]
      by_cases short : haystack.length - pos < needle.length
      · rw [ifindLoop_step c haystack nonempty, skipTo_of_short (.inr short), if_pos short]
        rfl
      · have step := skipTo_of_long (c := c) (not_or.mpr ⟨Nat.not_le.mpr inside, short⟩) here
        rw [if_neg short]
        by_cases other : toLower byte ≠ c
        · rw [if_pos other] at step ⊢
          rw [ifindLoop_step c haystack nonempty, step, ← ifindLoop_step c haystack nonempty, later]
        · rw [if_neg other] at step ⊢
          rw [ifindLoop_step c haystack nonempty, step]
          simp only
          rw [behind, later]
          cases iequals (others.take (needle.length - 1)) needle.tail with
          | true => rfl
          | false => rfl

theorem ifind_eq (haystack needle : Bytes) :
    ifind haystack needle = ofOption (NativeLibs.ifind haystack needle) := by
  cases needle with
  | nil => rfl
  | cons front tail =>
    cases haystack with
    | nil => rfl
    | cons byte rest => exact ifindLoop_eq (toLower front) (byte :: rest) (List.cons_ne_nil _ _) 0

end Views

/-! ### The first occurrence -/

/-- The needle stands at a position of the haystack, with no regard to case. -/
def OccursAt (haystack needle : Bytes) (pos : ℕ) : Prop :=
  pos + needle.length ≤ haystack.length ∧
    iequals ((haystack.drop pos).take needle.length) needle = true

theorem occursAt_cons_zero (byte front : UInt8) (rest tail : Bytes) :
    OccursAt (byte :: rest) (front :: tail) 0 ↔
      (front :: tail).length ≤ (byte :: rest).length ∧ toLower byte = toLower front ∧
        iequals (rest.take tail.length) tail = true := by
  rw [OccursAt, Nat.zero_add, List.drop_zero, List.length_cons, List.take_succ_cons, iequals,
    iequals, beq_iff_eq, beq_iff_eq, List.map_cons, List.map_cons, List.cons.injEq]

theorem occursAt_cons_succ (byte : UInt8) (rest needle : Bytes) (pos : ℕ) :
    OccursAt (byte :: rest) needle (pos + 1) ↔ OccursAt rest needle pos := by
  rw [OccursAt, OccursAt, List.drop_succ_cons, List.length_cons, Nat.add_right_comm,
    Nat.add_le_add_iff_right]

theorem not_occursAt_of_short {haystack needle : Bytes} (short : haystack.length < needle.length)
    (pos : ℕ) : ¬OccursAt haystack needle pos := by
  intro occurs
  have fits := occurs.1
  omega

theorem isLeast_succ {P : ℕ → Prop} {least : ℕ} (first : ¬P 0)
    (later : IsLeast {pos | P (pos + 1)} least) : IsLeast {pos | P pos} (least + 1) := by
  refine ⟨later.1, fun pos holds => ?_⟩
  cases pos with
  | zero => exact absurd holds first
  | succ pos => exact Nat.succ_le_succ (later.2 holds)

/-- A search from some position on finds nothing, or the least place at which the needle stands. -/
def FindsFirst (haystack needle : Bytes) (found : Option ℕ) : Prop :=
  found = none ∧ (∀ pos, ¬OccursAt haystack needle pos) ∨
    ∃ least, found = some least ∧ IsLeast {pos | OccursAt haystack needle pos} least

theorem FindsFirst.cons {byte : UInt8} {rest needle : Bytes} {found : Option ℕ}
    (first : ¬OccursAt (byte :: rest) needle 0) (later : FindsFirst rest needle found) :
    FindsFirst (byte :: rest) needle (found.map (· + 1)) := by
  rcases later with ⟨rfl, absent⟩ | ⟨least, rfl, isLeast⟩
  · refine .inl ⟨rfl, fun pos => ?_⟩
    cases pos with
    | zero => exact first
    | succ pos => exact fun occurs => absent pos ((occursAt_cons_succ ..).mp occurs)
  · refine .inr ⟨least + 1, rfl, isLeast_succ first ?_⟩
    simp only [occursAt_cons_succ]
    exact isLeast

theorem ifindLoop_eq_map (first : UInt8) (needle : Bytes) (pos : ℕ) (rest : Bytes) :
    ifindLoop first needle pos rest = (ifindLoop first needle 0 rest).map (pos + ·) := by
  induction rest generalizing pos with
  | nil => rfl
  | cons byte rest inductionHypothesis =>
    rw [ifindLoop, ifindLoop, inductionHypothesis (pos + 1), inductionHypothesis (0 + 1)]
    have shifted : ((ifindLoop first needle 0 rest).map (0 + 1 + ·)).map (pos + ·) =
        (ifindLoop first needle 0 rest).map (pos + 1 + ·) := by
      rw [Option.map_map]
      refine congrArg (Option.map · _) ?_
      funext found
      show pos + (0 + 1 + found) = pos + 1 + found
      omega
    split_ifs
    · rfl
    · exact shifted.symm
    · rfl
    · exact shifted.symm

theorem findsFirst_ifindLoop (front : UInt8) (tail rest : Bytes) :
    FindsFirst rest (front :: tail) (ifindLoop (toLower front) (front :: tail) 0 rest) := by
  induction rest with
  | nil =>
    exact .inl ⟨rfl, not_occursAt_of_short (Nat.succ_pos _)⟩
  | cons byte rest inductionHypothesis =>
    have next : ifindLoop (toLower front) (front :: tail) (0 + 1) rest =
        (ifindLoop (toLower front) (front :: tail) 0 rest).map (· + 1) := by
      rw [ifindLoop_eq_map]
      refine congrArg (Option.map · _) ?_
      funext found
      exact Nat.add_comm _ _
    have here := occursAt_cons_zero byte front rest tail
    rw [ifindLoop]
    by_cases short : (byte :: rest).length < (front :: tail).length
    · rw [if_pos short]
      exact .inl ⟨rfl, not_occursAt_of_short short⟩
    rw [if_neg short]
    by_cases other : toLower byte ≠ toLower front
    · rw [if_pos other, next]
      exact inductionHypothesis.cons fun occurs => other (here.mp occurs).2.1
    rw [if_neg other]
    by_cases equal : iequals (rest.take ((front :: tail).length - 1)) (front :: tail).tail = true
    · rw [if_pos equal]
      refine .inr ⟨0, rfl, here.mpr ⟨Nat.not_lt.mp short, not_not.mp other, equal⟩, ?_⟩
      exact fun pos _ => Nat.zero_le pos
    · rw [if_neg equal, next]
      exact inductionHypothesis.cons fun occurs => equal (here.mp occurs).2.2

theorem findsFirst_ifind (haystack needle : Bytes) :
    FindsFirst haystack needle (ifind haystack needle) := by
  cases needle with
  | nil =>
    refine .inr ⟨0, rfl, ⟨Nat.zero_le _, ?_⟩, fun pos _ => Nat.zero_le pos⟩
    rw [List.length_nil, List.take_zero]
    rfl
  | cons front tail => exact findsFirst_ifindLoop front tail haystack

/-- For every haystack and needle: `ifind` reads nothing outside of them, and it returns the least
position at which the needle stands, or `npos` if there is none. -/
theorem ifind_isLeast (haystack needle : Bytes) :
    Views.ifind haystack needle = .npos ∧ (∀ pos, ¬OccursAt haystack needle pos) ∨
      ∃ least, Views.ifind haystack needle = .position least ∧
        IsLeast {pos | OccursAt haystack needle pos} least := by
  rw [Views.ifind_eq]
  rcases findsFirst_ifind haystack needle with ⟨missing, absent⟩ | ⟨least, found, isLeast⟩
  · rw [missing]
    exact .inl ⟨rfl, absent⟩
  · rw [found]
    exact .inr ⟨least, rfl, isLeast⟩

/-! ### Regular expressions with a shortcut -/

namespace Regex

/-- `ShortcuttedRegex`, with the `match` of the underlying regular expression. -/
structure ShortcuttedRegex where
  caseSensitive : Bool
  shortcut : Bytes
  underlyingRegex : Bytes → MatchResult

namespace ShortcuttedRegex

/-- `ShortcuttedRegex::match`. -/
def matchText (regex : ShortcuttedRegex) (text : Bytes) : MatchResult :=
  if (regex.caseSensitive && findFrom text regex.shortcut 0 = none) ||
      (!regex.caseSensitive && Views.ifind text regex.shortcut = .npos) then
    .noMatch
  else regex.underlyingRegex text

/-- The text has the shortcut, in the sense in which letters are compared. -/
def HasShortcut (regex : ShortcuttedRegex) (text : Bytes) : Prop :=
  if regex.caseSensitive then regex.shortcut <:+: text
  else ∃ pos, OccursAt text regex.shortcut pos

theorem matchText_eq (regex : ShortcuttedRegex) (text : Bytes) :
    regex.HasShortcut text ∧ regex.matchText text = regex.underlyingRegex text ∨
      ¬regex.HasShortcut text ∧ regex.matchText text = .noMatch := by
  rw [HasShortcut, matchText]
  cases regex.caseSensitive with
  | true =>
    simp only [Bool.true_and, Bool.not_true, Bool.false_and, Bool.or_false, decide_eq_true_eq,
      if_true, findFrom_zero_eq_none_iff]
    by_cases has : regex.shortcut <:+: text
    · exact .inl ⟨has, if_neg (not_not.mpr has)⟩
    · exact .inr ⟨has, if_pos has⟩
  | false =>
    simp only [Bool.false_and, Bool.not_false, Bool.true_and, Bool.false_or, decide_eq_true_eq,
      Bool.false_eq_true, if_false, Views.ifind_eq]
    rcases findsFirst_ifind text regex.shortcut with ⟨missing, absent⟩ | ⟨least, found, isLeast⟩
    · rw [missing]
      exact .inr ⟨not_exists.mpr absent, if_pos rfl⟩
    · rw [found]
      exact .inl ⟨⟨least, isLeast.1⟩, if_neg Views.Search.noConfusion⟩

/-- If every text that does not fail to match has the shortcut, looking for it first changes
nothing. -/
theorem matchText_eq_underlying {regex : ShortcuttedRegex}
    (required : ∀ text, regex.underlyingRegex text ≠ .noMatch → regex.HasShortcut text)
    (text : Bytes) : regex.matchText text = regex.underlyingRegex text := by
  rcases regex.matchText_eq text with ⟨-, same⟩ | ⟨missing, gaveUp⟩
  · exact same
  · have fails : regex.underlyingRegex text = .noMatch := by
      by_contra matching
      exact missing (required text matching)
    rw [gaveUp, fails]

end ShortcuttedRegex

end Regex

end NativeLibs
