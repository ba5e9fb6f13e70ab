/-
This file models `Regex::match` and `RegexMatch::group_substr`. PCRE2 gives every
group a begin and an end in the text, or the largest value of `size_t` for both if
the group took no part in the match. The offsets are copied as they are. A group
is read by two calls of `substr`, and the second one throws if its position is
behind the end of the text, as that of an unset group always is.
-/

import NativeLibs.Text.Bytes

namespace NativeLibs.Regex

/-! ### Matching -/

/-- `PCRE2_UNSET` and `std::string_view::npos`: the largest value of a 64-bit `size_t`. -/
def unset : ℕ := 2 ^ 64 - 1

/-- A text as long as a `std::string_view` can be. -/
structure Subject where
  text : Bytes
  fits : text.length < 2 ^ 63

/-- What PCRE2 knows of a group of a match. -/
inductive Group (length : ℕ) where
  | between (first last : ℕ) (ordered : first ≤ last) (inside : last ≤ length)
  | unset

/-- The offsets of a group, as PCRE2 gives them. -/
def Group.offsets {length : ℕ} : Group length → ℕ × ℕ
  | between first last _ _ => (first, last)
  | unset => (Regex.unset, Regex.unset)

/-- `RegexMatch`. -/
structure RegexMatch where
  matchGroups : List (ℕ × ℕ)
  deriving DecidableEq

/-- `Regex::MatchResult`. -/
inductive MatchResult where
  | found (groups : RegexMatch)
  | noMatch
  | error (code : ℤ)
  deriving DecidableEq

/-- `PCRE2_ERROR_NOMATCH`. -/
def errorNomatch : ℤ := -1

/-- `PCRE2_ERROR_PARTIAL`. -/
def errorPartial : ℤ := -2

/-- `Regex::match`, by what `pcre2_match` returns and the offsets it leaves. -/
def matchText (res : ℤ) (offsets : List (ℕ × ℕ)) : MatchResult :=
  let matchedGroups := if 0 < res then offsets.take res.toNat else []
  if 0 ≤ res then .found ⟨matchedGroups⟩
  else if res = errorNomatch ∨ res = errorPartial then .noMatch
  else .error res

/-- `std::string_view::substr`, which throws for a position behind the end. -/
def substr (text : Bytes) (pos count : ℕ) : Option Bytes :=
  if text.length < pos then none else some ((text.drop pos).take count)

/-- `RegexMatch::group_substr`, if it does not throw. -/
def RegexMatch.groupSubstr (groups : RegexMatch) (text : Bytes) (groupId : ℕ) : Option Bytes :=
  match groups.matchGroups[groupId]? with
  | none => some []
  | some (first, last) => (substr text 0 last).bind fun front => substr front first unset

/-! ### Reading a group -/

/-- The text of a group that took part in the match, and nothing for the others. -/
def Group.read {length : ℕ} (text : Bytes) : Group length → Bytes
  | between first last _ _ => (text.drop first).take (last - first)
  | unset => []

theorem substr_between {text : Bytes} {first last : ℕ} (short : text.length < 2 ^ 63)
    (ordered : first ≤ last) (inside : last ≤ text.length) :
    ((substr text 0 last).bind fun front => substr front first unset) =
      some ((text.drop first).take (last - first)) := by
  have front : substr text 0 last = some (text.take last) := by
    rw [substr, if_neg (Nat.not_lt_zero _), List.drop_zero]
  have behind : ¬(text.take last).length < first := by
    rw [List.length_take]
    omega
  have all : ((text.take last).drop first).length ≤ unset := by
    rw [List.length_drop, List.length_take, unset]
    omega
  rw [front, Option.bind_some, substr, if_neg behind, List.take_of_length_le all, List.drop_take]

theorem substr_unset {text : Bytes} (short : text.length < 2 ^ 63) :
    ((substr text 0 unset).bind fun front => substr front unset unset) = none := by
  have beyond : (text.take unset).length < unset := by
    rw [List.length_take, unset]
    omega
  rw [substr, if_neg (Nat.not_lt_zero _), List.drop_zero, Option.bind_some, substr, if_pos beyond]

theorem matchGroups_of_found {res : ℤ} {offsets : List (ℕ × ℕ)} {groups : RegexMatch}
    (found : matchText res offsets = .found groups) :
    groups.matchGroups = offsets.take res.toNat := by
  rw [matchText] at found
  by_cases matched : 0 ≤ res
  · rw [if_pos matched] at found
    obtain rfl := MatchResult.found.inj found
    by_cases positive : 0 < res
    · exact if_pos positive
    · have zero : res = 0 := by omega
      rw [zero]
      rfl
  · rw [if_neg matched] at found
    split at found <;> cases found

/-- A group of a match is read without an exception, as its text if it took part in the match and as
nothing if it did not or if there is no such group, exactly if it is not a group that took no
part. -/
theorem groupSubstr_iff (subject : Subject) (ovector : List (Group subject.text.length)) (res : ℤ)
    (groups : RegexMatch) (found : matchText res (ovector.map Group.offsets) = .found groups)
    (groupId : ℕ) :
    groups.groupSubstr subject.text groupId =
        some (((ovector.take res.toNat)[groupId]?.map (Group.read subject.text)).getD []) ↔
      (ovector.take res.toNat)[groupId]? ≠ some .unset := by
  rw [RegexMatch.groupSubstr, matchGroups_of_found found, ← List.map_take, List.getElem?_map]
  cases here : (ovector.take res.toNat)[groupId]? with
  | none => exact iff_of_true rfl (Option.some_ne_none _).symm
  | some group =>
    cases group with
    | between first last ordered inside =>
      refine iff_of_true (substr_between subject.fits ordered inside) ?_
      rintro ⟨⟩
    | unset =>
      refine iff_of_false ?_ fun set => set rfl
      intro read
      exact absurd ((substr_unset subject.fits).symm.trans read) (Option.some_ne_none _).symm

/-- The text `b`, as it is matched by `(a)|(b)`. -/
def secondAlternative : Subject := ⟨ascii "b", by decide⟩

/-- The whole match, the group `(a)` that took no part in it, and the group `(b)`. -/
def secondAlternativeGroups : List (Group secondAlternative.text.length) :=
  [.between 0 1 (by decide) (by decide), .unset, .between 0 1 (by decide) (by decide)]

/-- The group that took part in the match is read. -/
theorem groupSubstr_iff_second :
    (⟨[(0, 1), (unset, unset), (0, 1)]⟩ : RegexMatch).groupSubstr (ascii "b") 2 =
      some (ascii "b") := by
  refine (groupSubstr_iff secondAlternative secondAlternativeGroups 3 _ rfl 2).mpr ?_
  rintro ⟨⟩

/-- The group that took no part in the match throws. -/
theorem unsetGroup_throws :
    matchText 3 (secondAlternativeGroups.map Group.offsets) =
        .found ⟨[(0, 1), (unset, unset), (0, 1)]⟩ ∧
      (⟨[(0, 1), (unset, unset), (0, 1)]⟩ : RegexMatch).groupSubstr (ascii "b") 1 = none := by
  refine ⟨rfl, ?_⟩
  exact substr_unset (by decide)

end NativeLibs.Regex
