/-
This file models `get_tld` and `reduce_domain` of the `tldregistry` recipe. Which
names are registered is any predicate.

`reduce_domain` walks backwards from the character in front of the dot before the
registered name, one dot in each round. The position is a `size_t`. For a domain
that is itself registered there is no such dot: the position wraps around and lies
behind the end of the domain, so that the walk goes through the dots of the
registered name.
-/

import Mathlib.Data.List.DropRight
import NativeLibs.Library.Splitting
import NativeLibs.Text.Split

namespace NativeLibs.Tldregistry

open Library

/-- `'.'`. -/
def dot : UInt8 := 46

/-- A `std::string_view`, with a length that is a `size_t`. -/
structure StringView where
  bytes : Bytes
  fits : bytes.length < 2 ^ 64

variable (isTld : Bytes → Bool)

/-! ### The functions -/

/-- `get_tld`. -/
def getTld (domain : Bytes) : Option Bytes :=
  if domain = [] then none
  else if isTld domain then some domain
  else
    match findFirstOf domain [dot] with
    | none => none
    | some pos => getTld (domain.drop (pos + 1))
termination_by domain.length
decreasing_by
  rename_i nonempty _
  have positive := List.length_pos_of_ne_nil nonempty
  rw [List.length_drop]
  omega

/-- The first two loops of `reduce_domain`. -/
def stripDots (domain : Bytes) : Bytes :=
  (domain.dropWhile fun byte => byte = dot).rdropWhile fun byte => byte = dot

/-- `rfind` for a dot at the position or before it. -/
def rfindDot (domain : Bytes) (pos : ℕ) : Option ℕ := findLastOf (domain.take (pos + 1)) [dot]

/-- `substr`, which throws for a position behind the end. -/
def substr (domain : Bytes) (pos : ℕ) : Option Bytes :=
  if domain.length < pos then none else some (domain.drop pos)

/-- The last loop of `reduce_domain` and what it returns. -/
def reduceLoop (domain : Bytes) : ℕ → ℕ → Option Bytes
  | 0, pos => substr domain ((pos + 2) % 2 ^ 64)
  | n + 1, pos =>
    match rfindDot domain pos with
    | none => some domain
    | some pos => reduceLoop domain n ((pos + 2 ^ 64 - 1) % 2 ^ 64)

/-- `reduce_domain` after its first two loops, if it does not throw. -/
def reduceStripped (domain : Bytes) (n : ℕ) : Option Bytes :=
  match getTld isTld domain with
  | some tld => reduceLoop domain n ((domain.length + 2 ^ 64 - tld.length - 2) % 2 ^ 64)
  | none =>
    match findLastOf domain [dot] with
    | some pos => reduceLoop domain n ((pos + 2 ^ 64 - 1) % 2 ^ 64)
    | none => some domain

/-- `reduce_domain`. -/
def reduceDomain (domain : StringView) (n : ℕ) : Option Bytes :=
  reduceStripped isTld (stripDots domain.bytes) n

/-! ### The registered name -/

/-- A suffix of a domain that begins at a label. -/
def AtLabel (domain suffix : Bytes) : Prop :=
  suffix = domain ∨ ∃ before, domain = before ++ dot :: suffix

/-- The longest suffix at a label that is registered, or none if there is no such suffix. -/
def LongestTld (domain : Bytes) : Option Bytes → Prop
  | none => ∀ suffix, AtLabel domain suffix → suffix ≠ [] → isTld suffix = false
  | some tld => AtLabel domain tld ∧ tld ≠ [] ∧ isTld tld = true ∧
      ∀ suffix, AtLabel domain suffix → suffix ≠ [] → isTld suffix = true →
        suffix.length ≤ tld.length

theorem atLabel_of_absent {domain suffix : Bytes} (absent : dot ∉ domain)
    (boundary : AtLabel domain suffix) : suffix = domain := by
  rcases boundary with same | ⟨before, rfl⟩
  · exact same
  · exact absurd (List.mem_append_right before List.mem_cons_self) absent

theorem atLabel_append_iff {label : Bytes} (absent : dot ∉ label) (rest suffix : Bytes) :
    AtLabel (label ++ dot :: rest) suffix ↔
      suffix = label ++ dot :: rest ∨ AtLabel rest suffix := by
  refine or_congr_right ⟨?_, ?_⟩
  · rintro ⟨before, split⟩
    rcases List.append_eq_append_iff.mp split with ⟨more, -, after⟩ | ⟨more, inside, after⟩
    · cases more with
      | nil => exact .inl (List.cons.inj after).2.symm
      | cons byte more =>
        obtain ⟨rfl, later⟩ := List.cons.inj after
        exact .inr ⟨more, later⟩
    · cases more with
      | nil => exact .inl (List.cons.inj after).2
      | cons byte more =>
        obtain ⟨rfl, -⟩ := List.cons.inj after
        rw [inside] at absent
        exact absurd (List.mem_append_right before List.mem_cons_self) absent
  · rintro (rfl | ⟨before, rfl⟩)
    · exact ⟨label, rfl⟩
    · exact ⟨label ++ dot :: before, (List.append_assoc label (dot :: before) _).symm⟩

theorem AtLabel.length_le {domain suffix : Bytes} (boundary : AtLabel domain suffix) :
    suffix.length ≤ domain.length := by
  rcases boundary with rfl | ⟨before, rfl⟩
  · exact le_rfl
  · rw [List.length_append, List.length_cons]
    omega

/-- A domain without a dot, or its first label and what follows it. -/
theorem findDot_cases (domain : Bytes) :
    findFirstOf domain [dot] = none ∧ dot ∉ domain ∨
      ∃ label rest, domain = label ++ dot :: rest ∧ dot ∉ label ∧
        findFirstOf domain [dot] = some label.length := by
  by_cases occurs : dot ∈ domain
  · obtain ⟨label, rest, rfl, absent⟩ := List.eq_append_cons_of_mem occurs
    exact .inr ⟨label, rest, rfl, absent, findFirstOf_append absent rest⟩
  · exact .inl ⟨findFirstOf_eq_none occurs, occurs⟩

variable {isTld} in
theorem LongestTld.append {label rest : Bytes} (absent : dot ∉ label)
    (unregistered : ¬isTld (label ++ dot :: rest) = true) {found : Option Bytes}
    (longest : LongestTld isTld rest found) : LongestTld isTld (label ++ dot :: rest) found := by
  have later : ∀ suffix, AtLabel (label ++ dot :: rest) suffix → isTld suffix = true →
      AtLabel rest suffix := by
    intro suffix boundary holds
    refine ((atLabel_append_iff absent rest suffix).mp boundary).resolve_left ?_
    rintro rfl
    exact unregistered holds
  cases found with
  | none =>
    intro suffix boundary nonempty
    by_contra holds
    rw [Bool.not_eq_false] at holds
    exact absurd (longest suffix (later suffix boundary holds) nonempty) (by rw [holds]; decide)
  | some tld =>
    obtain ⟨boundary, nonempty, holds, maximal⟩ := longest
    exact ⟨(atLabel_append_iff absent rest tld).mpr (.inr boundary), nonempty, holds,
      fun suffix other full also => maximal suffix (later suffix other also) full also⟩

theorem getTld_longest (domain : Bytes) : LongestTld isTld domain (getTld isTld domain) := by
  induction length : domain.length using Nat.strong_induction_on generalizing domain with
  | _ _ inductionHypothesis =>
  rw [getTld]
  by_cases empty : domain = []
  · rw [if_pos empty]
    intro suffix boundary nonempty
    have short := boundary.length_le
    rw [empty] at short
    exact absurd (List.eq_nil_of_length_eq_zero (Nat.le_zero.mp short)) nonempty
  · rw [if_neg empty]
    by_cases registered : isTld domain = true
    · rw [if_pos registered]
      exact ⟨.inl rfl, empty, registered, fun suffix boundary _ _ => boundary.length_le⟩
    · rw [if_neg registered]
      rcases findDot_cases domain with ⟨missing, absent⟩ | ⟨label, rest, rfl, absent, found⟩
      · rw [missing]
        intro suffix boundary _
        rw [atLabel_of_absent absent boundary]
        exact Bool.eq_false_iff.mpr registered
      · rw [found]
        have following : (label ++ dot :: rest).drop (label.length + 1) = rest := by
          rw [← List.drop_drop, List.drop_left, List.drop_one, List.tail_cons]
        have shorter : rest.length < (label ++ dot :: rest).length := by
          rw [List.length_append, List.length_cons]
          omega
        dsimp only
        rw [following]
        exact .append absent registered
          (inductionHypothesis rest.length (length ▸ shorter) rest rfl)

/-! ### The walk over the dots -/

/-- The domain does not begin with a dot. -/
def NoLeadingDot (domain : Bytes) : Prop := ∀ rest, domain ≠ dot :: rest

theorem noLeadingDot_stripDots (domain : Bytes) : NoLeadingDot (stripDots domain) := by
  intro rest stripped
  obtain ⟨more, whole⟩ := List.rdropWhile_prefix (fun byte => decide (byte = dot))
    (domain.dropWhile fun byte => decide (byte = dot))
  have head := List.head?_dropWhile_not (fun byte => decide (byte = dot)) domain
  rw [← whole, show List.rdropWhile _ _ = dot :: rest from stripped, List.cons_append,
    List.head?_cons] at head
  exact absurd head (by decide)

theorem length_stripDots_le (domain : Bytes) : (stripDots domain).length ≤ domain.length :=
  (List.rdropWhile_prefix _ _).length_le.trans (List.dropWhile_suffix _).length_le

theorem NoLeadingDot.ne_nil {before after : Bytes}
    (leading : NoLeadingDot (before ++ dot :: after)) : before ≠ [] := by
  rintro rfl
  exact leading after rfl

theorem length_wrap {before : Bytes} (nonempty : before ≠ []) (fits : before.length < 2 ^ 64) :
    (before.length + 2 ^ 64 - 1) % 2 ^ 64 = before.length - 1 := by
  have positive := List.length_pos_of_ne_nil nonempty
  omega

/-- From the character in front of a dot the walk goes over the last labels before it. -/
theorem reduceLoop_labels {domain : Bytes} (leading : NoLeadingDot domain)
    (fits : domain.length < 2 ^ 64) (n : ℕ) {before after : Bytes}
    (whole : domain = before ++ dot :: after) :
    reduceLoop domain n (before.length - 1) =
      some ([dot].intercalate ((before.splitOn dot).rtake n ++ [after])) := by
  have length : domain.length = before.length + (after.length + 1) := by
    rw [whole, List.length_append, List.length_cons]
  have nonempty : before ≠ [] := NoLeadingDot.ne_nil (whole ▸ leading)
  have positive := List.length_pos_of_ne_nil nonempty
  induction n generalizing before after with
  | zero =>
    have position : (before.length - 1 + 2) % 2 ^ 64 = before.length + 1 := by omega
    rw [reduceLoop, position, substr, if_neg (by omega), whole, ← List.drop_drop, List.drop_left,
      List.rtake_zero, List.nil_append, List.intercalate_singleton]
    rfl
  | succ n inductionHypothesis =>
    have front : domain.take (before.length - 1 + 1) = before := by
      rw [Nat.sub_add_cancel positive, whole, List.take_left]
    rw [reduceLoop, rfindDot, front]
    rcases findLastOf_cases before dot with ⟨missing, absent⟩ | ⟨earlier, label, rfl, absent, found⟩
    · rw [missing, List.splitOn_eq_singleton absent, whole]
      simp [List.rtake]
    · rw [found]
      have split : domain = earlier ++ dot :: (label ++ [dot] ++ after) := by
        rw [whole]
        simp only [List.append_assoc, List.cons_append, List.nil_append]
      have present : earlier ≠ [] := NoLeadingDot.ne_nil (split ▸ leading)
      have short : earlier.length < 2 ^ 64 := by
        rw [List.length_append, List.length_cons] at length
        omega
      dsimp only
      rw [length_wrap present short,
        inductionHypothesis split (by rw [split, List.length_append, List.length_cons]) present
          (List.length_pos_of_ne_nil present),
        List.splitOn_append_cons_self, List.splitOn_eq_singleton absent, List.rtake_concat_succ,
        intercalate_joined]

/-- The position that wrapped around is behind the end, so that the walk goes over the last labels
of the whole domain. -/
theorem reduceLoop_wrapped {domain : Bytes} (leading : NoLeadingDot domain)
    (fits : domain.length < 2 ^ 64) (n : ℕ) :
    reduceLoop domain (n + 1) (2 ^ 64 - 2) =
      some ([dot].intercalate ((domain.splitOn dot).rtake (n + 1))) := by
  have whole : domain.take (2 ^ 64 - 2 + 1) = domain := List.take_of_length_le (by omega)
  rw [reduceLoop, rfindDot, whole]
  rcases findLastOf_cases domain dot with ⟨missing, absent⟩ | ⟨before, label, split, absent, found⟩
  · rw [missing, List.splitOn_eq_singleton absent]
    simp [List.rtake]
  · have nonempty : before ≠ [] := NoLeadingDot.ne_nil (split ▸ leading)
    have short : before.length < 2 ^ 64 := by
      rw [split, List.length_append] at fits
      omega
    rw [found]
    dsimp only
    rw [length_wrap nonempty short, reduceLoop_labels leading fits n split, split,
      List.splitOn_append_cons_self, List.splitOn_eq_singleton absent, List.rtake_concat_succ]

theorem reduceLoop_suffix {domain result : Bytes} {n pos : ℕ}
    (reduced : reduceLoop domain n pos = some result) : result <:+ domain := by
  induction n generalizing pos with
  | zero =>
    rw [reduceLoop, substr] at reduced
    split at reduced
    · cases reduced
    · exact Option.some.inj reduced ▸ List.drop_suffix _ _
  | succ n inductionHypothesis =>
    rw [reduceLoop] at reduced
    split at reduced
    · exact Option.some.inj reduced ▸ List.suffix_refl _
    · exact inductionHypothesis reduced

theorem lastLabels_eq_iff (domain : Bytes) (n : ℕ) :
    [dot].intercalate ((domain.splitOn dot).rtake (n + 1)) = domain ↔ domain.count dot ≤ n := by
  have count : (domain.splitOn dot).length = domain.count dot + 1 :=
    length_splitOnP (· == dot) domain
  have joined : [dot].intercalate (domain.splitOn dot) = domain := List.intercalate_splitOn dot
  constructor
  · intro same
    by_contra more
    have total := congrArg List.length (same.trans joined.symm)
    rw [length_intercalate, length_intercalate] at total
    have parts := congrArg (fun labels => (labels.map List.length).sum)
      (List.take_append_drop ((domain.splitOn dot).length - (n + 1)) (domain.splitOn dot))
    simp only [List.map_append, List.sum_append] at parts
    simp only [List.rtake, List.length_drop, List.length_singleton, mul_one] at total
    omega
  · intro few
    rw [List.rtake, Nat.sub_eq_zero_of_le (by omega), List.drop_zero, joined]

/-! ### Reduction -/

/-- The labels of a domain in front of a suffix that begins at a label. -/
def labelsBefore (domain tld : Bytes) : List Bytes :=
  if tld.length < domain.length then
    (domain.take (domain.length - tld.length - 1)).splitOn dot
  else []

/-- The registered name with the last `n` labels before it, or all of them if they are fewer, and
without a registered name the last `n + 1` labels. -/
structure Reduces (domain : Bytes) (n : ℕ) (result : Bytes) : Prop where
  suffix : result <:+ domain
  registered : ∀ tld, getTld isTld domain = some tld →
    result = [dot].intercalate ((labelsBefore domain tld).rtake n ++ [tld])
  unregistered : getTld isTld domain = none →
    result = [dot].intercalate ((domain.splitOn dot).rtake (n + 1))

theorem labelsBefore_append (before tld : Bytes) :
    labelsBefore (before ++ dot :: tld) tld = before.splitOn dot := by
  have length : (before ++ dot :: tld).length = before.length + (tld.length + 1) := by
    rw [List.length_append, List.length_cons]
  rw [labelsBefore, if_pos (by omega), show (before ++ dot :: tld).length - tld.length - 1 =
    before.length by omega, List.take_left]

theorem labelsBefore_self (domain : Bytes) : labelsBefore domain domain = [] :=
  if_neg (lt_irrefl _)

variable {isTld} {domain : Bytes}

theorem reduceStripped_unregistered (leading : NoLeadingDot domain)
    (fits : domain.length < 2 ^ 64) (missing : getTld isTld domain = none) (n : ℕ) :
    reduceStripped isTld domain n =
      some ([dot].intercalate ((domain.splitOn dot).rtake (n + 1))) := by
  -- the search for the last dot is the first round of a walk from behind the end
  have whole : domain.take (2 ^ 64 - 2 + 1) = domain := List.take_of_length_le (by omega)
  rw [← reduceLoop_wrapped leading fits n, reduceStripped, missing, reduceLoop, rfindDot, whole]
  dsimp only
  cases findLastOf domain [dot] with
  | none => rfl
  | some pos => rfl

theorem reduceStripped_registered (leading : NoLeadingDot domain)
    (fits : domain.length < 2 ^ 64) {before tld : Bytes} (whole : domain = before ++ dot :: tld)
    (found : getTld isTld domain = some tld) (n : ℕ) :
    reduceStripped isTld domain n =
      some ([dot].intercalate ((before.splitOn dot).rtake n ++ [tld])) := by
  have positive := List.length_pos_of_ne_nil (NoLeadingDot.ne_nil (whole ▸ leading))
  have length : domain.length = before.length + (tld.length + 1) := by
    rw [whole, List.length_append, List.length_cons]
  have position : (domain.length + 2 ^ 64 - tld.length - 2) % 2 ^ 64 = before.length - 1 := by
    omega
  rw [reduceStripped, found]
  dsimp only
  rw [position, reduceLoop_labels leading fits n whole]

/-- A domain that is registered itself loses the labels in front of the last `n`. -/
theorem reduceStripped_self (leading : NoLeadingDot domain) (fits : domain.length < 2 ^ 64)
    (found : getTld isTld domain = some domain) (n : ℕ) :
    reduceStripped isTld domain n =
      some (if n = 0 then domain else [dot].intercalate ((domain.splitOn dot).rtake n)) := by
  have position : (domain.length + 2 ^ 64 - domain.length - 2) % 2 ^ 64 = 2 ^ 64 - 2 := by omega
  rw [reduceStripped, found]
  dsimp only
  rw [position]
  cases n with
  | zero =>
    rw [reduceLoop, substr, if_pos rfl, Nat.sub_add_cancel (by decide), Nat.mod_self,
      if_neg (Nat.not_lt_zero _), List.drop_zero]
  | succ n => rw [reduceLoop_wrapped leading fits n, if_neg (Nat.succ_ne_zero n)]

theorem reduceStripped_suffix {n : ℕ} {result : Bytes}
    (reduced : reduceStripped isTld domain n = some result) : result <:+ domain := by
  rw [reduceStripped] at reduced
  split at reduced
  · exact reduceLoop_suffix reduced
  · split at reduced
    · exact reduceLoop_suffix reduced
    · exact Option.some.inj reduced ▸ List.suffix_refl _

theorem reduceStripped_self_iff (leading : NoLeadingDot domain) (fits : domain.length < 2 ^ 64)
    (found : getTld isTld domain = some domain) (n : ℕ) :
    (∃ result, reduceStripped isTld domain n = some result ∧ Reduces isTld domain n result) ↔
      ¬(some domain = some domain ∧ 0 < n ∧ n ≤ domain.count dot) := by
  have expected :
      [dot].intercalate ((labelsBefore domain domain).rtake n ++ [domain]) = domain := by
    rw [labelsBefore_self, List.rtake_nil, List.nil_append, List.intercalate_singleton]
  have reduced := reduceStripped_self leading fits found n
  cases n with
  | zero =>
    rw [if_pos rfl] at reduced
    refine iff_of_true ⟨domain, reduced, List.suffix_refl _, fun tld other => ?_, fun missing => ?_⟩
      fun both => lt_irrefl 0 both.2.1
    · rw [Option.some.inj (other.symm.trans found), expected]
    · exact absurd (found.symm.trans missing) (Option.some_ne_none _)
  | succ n =>
    rw [if_neg (Nat.succ_ne_zero n)] at reduced
    constructor
    · rintro ⟨result, same, reduces⟩ ⟨-, -, more⟩
      have whole := (reduces.registered domain found).trans expected
      rw [reduced, whole] at same
      exact absurd ((lastLabels_eq_iff domain n).mp (Option.some.inj same)) (Nat.not_le.mpr more)
    · intro few
      have whole : domain.count dot ≤ n :=
        Nat.le_of_not_lt fun more => few ⟨rfl, Nat.succ_pos n, more⟩
      rw [(lastLabels_eq_iff domain n).mpr whole] at reduced
      refine ⟨domain, reduced, List.suffix_refl _, fun tld other => ?_, fun missing => ?_⟩
      · rw [Option.some.inj (other.symm.trans found), expected]
      · exact absurd (found.symm.trans missing) (Option.some_ne_none _)

theorem reduceStripped_iff (leading : NoLeadingDot domain) (fits : domain.length < 2 ^ 64)
    (n : ℕ) :
    (∃ result, reduceStripped isTld domain n = some result ∧ Reduces isTld domain n result) ↔
      ¬(getTld isTld domain = some domain ∧ 0 < n ∧ n ≤ domain.count dot) := by
  cases found : getTld isTld domain with
  | none =>
    have reduced := reduceStripped_unregistered leading fits found n
    refine iff_of_true ⟨_, reduced, reduceStripped_suffix reduced, fun tld other => ?_,
      fun _ => rfl⟩ fun both => (Option.some_ne_none _).symm both.1
    exact absurd (found.symm.trans other) (Option.some_ne_none _).symm
  | some tld =>
    have longest := getTld_longest isTld domain
    rw [found] at longest
    have only : ∀ other, getTld isTld domain = some other → other = tld := fun other also =>
      Option.some.inj (also.symm.trans found)
    have none_absurd : getTld isTld domain ≠ none := found.trans_ne (Option.some_ne_none _)
    rcases longest.1 with rfl | ⟨before, whole⟩
    · exact reduceStripped_self_iff leading fits found n
    · have reduced := reduceStripped_registered leading fits whole found n
      refine iff_of_true ⟨_, reduced, reduceStripped_suffix reduced, fun other also => ?_,
        fun missing => absurd missing none_absurd⟩ fun both => ?_
      · rw [only other also, whole, labelsBefore_append]
      · have lengths := congrArg List.length whole
        rw [Option.some.inj both.1, List.length_append, List.length_cons] at lengths
        omega

/-- `reduce_domain` returns what it should except for a domain that is registered itself and has
at least as many dots as labels are asked for. `get_tld` finds the longest registered suffix. -/
theorem reduceDomain_iff (isTld : Bytes → Bool) (domain : StringView) (n : ℕ) :
    LongestTld isTld (stripDots domain.bytes) (getTld isTld (stripDots domain.bytes)) ∧
    ((∃ result, reduceDomain isTld domain n = some result ∧
      Reduces isTld (stripDots domain.bytes) n result) ↔
      ¬(getTld isTld (stripDots domain.bytes) = some (stripDots domain.bytes) ∧ 0 < n ∧
        n ≤ (stripDots domain.bytes).count dot)) :=
  ⟨getTld_longest isTld _, reduceStripped_iff (noLeadingDot_stripDots domain.bytes)
    ((length_stripDots_le domain.bytes).trans_lt domain.fits) n⟩

/-- `co.uk`, which is registered, as is `uk`. -/
def coUk : StringView := ⟨ascii "co.uk", by decide⟩

/-- With one label more, `uk` remains of it. -/
theorem coUk_reduced :
    reduceDomain (fun name => name = ascii "co.uk" ∨ name = ascii "uk") coUk 1 =
        some (ascii "uk") ∧
      ¬Reduces (fun name => name = ascii "co.uk" ∨ name = ascii "uk")
        (stripDots coUk.bytes) 1 (ascii "uk") := by
  have found : getTld (fun name => name = ascii "co.uk" ∨ name = ascii "uk") (ascii "co.uk") =
      some (ascii "co.uk") := by
    rw [getTld, if_neg (by decide), if_pos (by decide)]
  have stripped : stripDots coUk.bytes = ascii "co.uk" := by decide
  constructor
  · rw [reduceDomain, stripped, reduceStripped, found]
    decide
  · intro reduces
    rw [stripped] at reduces
    exact absurd (reduces.registered (ascii "co.uk") found) (by decide)

end NativeLibs.Tldregistry
