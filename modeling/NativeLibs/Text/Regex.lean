/-
This file models `Regex::replace` and `Regex::replace_all` of `common/regex.cpp`.
PCRE2 is not part of the model. What a substitution comes to is any function of the
arguments of `pcre2_substitute` but the output buffer. With a buffer that is too
short it reports how long the buffer has to be.

The first call has room for an output as long as the subject. A longer output takes
a second call, and that one does not get the match context of the caller.
-/

import NativeLibs.Text.Bytes

namespace NativeLibs.Regex

/-! ### Substitution -/

/-- `PCRE2_ERROR_NOMEMORY`. -/
def errorNomemory : ℤ := -48

/-- `PCRE2_SUBSTITUTE_OVERFLOW_LENGTH`. -/
def substituteOverflowLength : UInt32 := 0x1000

/-- The arguments of `pcre2_substitute` that differ from call to call, but for the output. -/
structure Arguments (MatchContext : Type*) where
  subject : Bytes
  startOffset : ℕ
  options : UInt32
  matchContext : Option MatchContext
  replacement : Bytes

/-- An error of `pcre2_substitute` that is not about the room for the output. -/
structure Failure where
  code : ℤ
  negative : code < 0
  notNomemory : code ≠ errorNomemory

/-- What a substitution comes to, with enough room for the output. -/
inductive Outcome where
  | success (count : ℕ) (text : Bytes)
  | failure (error : Failure)

/-- What `pcre2_substitute` leaves: its value, the memory of the output and the output length. -/
structure Returned where
  retval : ℤ
  memory : Bytes
  length : ℕ

/-- `pcre2_substitute`, by what the substitution comes to. The capacity counts the terminating zero,
and so does the length that is reported if it is too small. -/
def pcre2Substitute (outcome : Outcome) (memory : Bytes) (capacity : ℕ) : Returned :=
  match outcome with
  | .failure error => ⟨error.code, memory, capacity⟩
  | .success count text =>
    if text.length + 1 ≤ capacity then
      ⟨count, text ++ 0 :: memory.drop (text.length + 1), text.length⟩
    else ⟨errorNomemory, memory, text.length + 1⟩

/-- `std::string::resize`. -/
def resize (string : Bytes) (size : ℕ) : Bytes :=
  string.take size ++ List.replicate (size - string.length) 0

/-- The memory of a `std::string`, with its terminating zero. -/
def memoryOf (string : Bytes) : Bytes := string ++ [0]

/-- `RegexReplaceOnceResult`. -/
inductive ReplaceOnceResult where
  | success (substitutionsNumber : ℕ) (string : Bytes)
  | error (code : ℤ)
  deriving DecidableEq

/-- The capacity that a call was given and the memory there was. -/
structure BufferUse where
  capacity : ℕ
  memory : ℕ
  deriving DecidableEq

/-- The end of `Regex::replace`. -/
def replaceResult (retval : ℤ) (result : Bytes) (resultLength : ℕ) : ReplaceOnceResult :=
  if retval < 0 then .error retval else .success retval.toNat (resize result resultLength)

section

variable {MatchContext : Type*} (substitute : Arguments MatchContext → Outcome)

/-- `Regex::replace`, with the buffers of its calls. -/
def replace (options : UInt32) (pattern replaceExpression : Bytes)
    (matchContext : Option MatchContext) : ReplaceOnceResult × List BufferUse :=
  let result := List.replicate pattern.length (0 : UInt8)
  let resultLength := result.length + 1
  let options := options ||| substituteOverflowLength
  let first := pcre2Substitute
    (substitute ⟨pattern, 0, options, matchContext, replaceExpression⟩) (memoryOf result)
    resultLength
  let firstUse : BufferUse := ⟨resultLength, (memoryOf result).length⟩
  let result := first.memory.take result.length
  if first.retval = errorNomemory then
    let result := resize result first.length
    let second := pcre2Substitute
      (substitute ⟨pattern, 0, options, none, replaceExpression⟩) (memoryOf result) first.length
    let secondUse : BufferUse := ⟨first.length, (memoryOf result).length⟩
    (replaceResult second.retval (second.memory.take result.length) second.length,
      [firstUse, secondUse])
  else (replaceResult first.retval result first.length, [firstUse])

/-- What one call gives that has the match context of the caller and enough room. -/
def replaceExpected (options : UInt32) (pattern replaceExpression : Bytes)
    (matchContext : Option MatchContext) : ReplaceOnceResult :=
  match substitute ⟨pattern, 0, options ||| substituteOverflowLength, matchContext,
    replaceExpression⟩ with
  | .success count text => .success count text
  | .failure error => .error error.code

end

/-! ### The room for the output -/

theorem length_memoryOf (string : Bytes) : (memoryOf string).length = string.length + 1 :=
  List.length_append

theorem length_resize (string : Bytes) (size : ℕ) : (resize string size).length = size := by
  rw [resize, List.length_append, List.length_take, List.length_replicate]
  omega

theorem replaceResult_written (count : ℕ) (text rest : Bytes) {size : ℕ}
    (fits : text.length ≤ size) :
    replaceResult count ((text ++ 0 :: rest).take size) text.length = .success count text := by
  have front : ((text ++ 0 :: rest).take size).take text.length = text := by
    rw [List.take_take, min_eq_left fits, List.take_left]
  have enough : text.length - ((text ++ 0 :: rest).take size).length = 0 := by
    rw [List.length_take, List.length_append, List.length_cons]
    omega
  rw [replaceResult, if_neg (Int.not_lt.mpr (Int.natCast_nonneg count)), resize, front, enough,
    List.replicate_zero, List.append_nil, Int.toNat_natCast]

theorem replaceResult_failure (error : Failure) (result : Bytes) (length : ℕ) :
    replaceResult error.code result length = .error error.code := if_pos error.negative

theorem natCast_ne_errorNomemory (count : ℕ) : (count : ℤ) ≠ errorNomemory := by
  rw [errorNomemory]
  omega

section

variable {MatchContext : Type*} (substitute : Arguments MatchContext → Outcome)
  (options : UInt32) (pattern replaceExpression : Bytes) (matchContext : Option MatchContext)

/-- The call that is made first is the only one, unless the output is longer than the subject. -/
theorem replace_of_fits
    (fits : ∀ count text, substitute ⟨pattern, 0, options ||| substituteOverflowLength,
      matchContext, replaceExpression⟩ = .success count text → text.length ≤ pattern.length) :
    (replace substitute options pattern replaceExpression matchContext).1 =
      replaceExpected substitute options pattern replaceExpression matchContext := by
  rw [replace, replaceExpected]
  cases outcome : substitute ⟨pattern, 0, options ||| substituteOverflowLength, matchContext,
      replaceExpression⟩ with
  | failure error =>
    simp only [pcre2Substitute, error.notNomemory, if_false]
    exact replaceResult_failure error _ _
  | success count text =>
    have room := fits count text outcome
    have enough : text.length + 1 ≤ (List.replicate pattern.length (0 : UInt8)).length + 1 := by
      rw [List.length_replicate]
      exact Nat.succ_le_succ room
    simp only [pcre2Substitute, enough, if_true, natCast_ne_errorNomemory, if_false]
    refine replaceResult_written count text _ ?_
    rw [List.length_replicate]
    exact room

/-- An output that is longer than the subject is asked for again, without a match context. -/
theorem replace_of_overflow {count : ℕ} {text : Bytes}
    (outcome : substitute ⟨pattern, 0, options ||| substituteOverflowLength, matchContext,
      replaceExpression⟩ = .success count text) (overflow : pattern.length < text.length) :
    (replace substitute options pattern replaceExpression matchContext).1 =
      match substitute ⟨pattern, 0, options ||| substituteOverflowLength, none,
        replaceExpression⟩ with
      | .success secondCount secondText =>
        if secondText.length ≤ text.length then .success secondCount secondText
        else .error errorNomemory
      | .failure error => .error error.code := by
  have tooShort : ¬text.length + 1 ≤ (List.replicate pattern.length (0 : UInt8)).length + 1 := by
    rw [List.length_replicate]
    omega
  rw [replace, outcome]
  simp only [pcre2Substitute, tooShort, if_false, if_true]
  cases substitute ⟨pattern, 0, options ||| substituteOverflowLength, none,
      replaceExpression⟩ with
  | failure error => exact replaceResult_failure error _ _
  | success secondCount secondText =>
    by_cases fits : secondText.length ≤ text.length
    · simp only [if_pos fits, if_pos (Nat.succ_le_succ fits)]
      refine replaceResult_written secondCount secondText _ ?_
      rw [length_resize]
      exact Nat.le_succ_of_le fits
    · simp only [if_neg fits, if_neg (mt Nat.le_of_succ_le_succ fits)]
      exact if_pos (by decide)

theorem capacity_le_memory :
    ∀ use ∈ (replace substitute options pattern replaceExpression matchContext).2,
      use.capacity ≤ use.memory := by
  rw [replace]
  simp only [length_memoryOf]
  split
  · refine List.forall_mem_cons.mpr ⟨le_rfl, List.forall_mem_singleton.mpr ?_⟩
    rw [length_resize]
    exact Nat.le_succ _
  · exact List.forall_mem_singleton.mpr le_rfl

/-- The replacement is what one call with enough room gives if an output that is longer than the
subject does not depend on the match context. -/
theorem replace_of_independent
    (independent : ∀ count text, substitute ⟨pattern, 0, options ||| substituteOverflowLength,
        matchContext, replaceExpression⟩ = .success count text →
      pattern.length < text.length →
      substitute ⟨pattern, 0, options ||| substituteOverflowLength, none, replaceExpression⟩ =
        .success count text) :
    (replace substitute options pattern replaceExpression matchContext).1 =
      replaceExpected substitute options pattern replaceExpression matchContext := by
  cases outcome : substitute ⟨pattern, 0, options ||| substituteOverflowLength, matchContext,
      replaceExpression⟩ with
  | failure error =>
    refine replace_of_fits substitute options pattern replaceExpression matchContext ?_
    intro count text same
    rw [outcome] at same
    cases same
  | success count text =>
    by_cases overflow : pattern.length < text.length
    · rw [replace_of_overflow substitute options pattern replaceExpression matchContext outcome
        overflow, replaceExpected, outcome]
      simp only [independent count text outcome overflow, le_refl, if_true]
    · refine replace_of_fits substitute options pattern replaceExpression matchContext ?_
      intro otherCount otherText same
      obtain ⟨rfl, rfl⟩ := Outcome.success.inj (outcome.symm.trans same)
      exact Nat.le_of_not_lt overflow

/-- The replacement is what one call with enough room gives, and no call is told of more room than
there is, exactly if an output that is longer than the subject does not depend on the match
context. -/
theorem replace_expected_iff :
    ((replace substitute options pattern replaceExpression matchContext).1 =
        replaceExpected substitute options pattern replaceExpression matchContext ∧
      ∀ use ∈ (replace substitute options pattern replaceExpression matchContext).2,
        use.capacity ≤ use.memory) ↔
      ∀ count text, substitute ⟨pattern, 0, options ||| substituteOverflowLength, matchContext,
          replaceExpression⟩ = .success count text →
        pattern.length < text.length →
        substitute ⟨pattern, 0, options ||| substituteOverflowLength, none, replaceExpression⟩ =
          .success count text := by
  rw [and_iff_left (capacity_le_memory substitute options pattern replaceExpression matchContext)]
  refine ⟨fun same count text outcome overflow => ?_,
    replace_of_independent substitute options pattern replaceExpression matchContext⟩
  rw [replace_of_overflow substitute options pattern replaceExpression matchContext outcome
    overflow, replaceExpected, outcome] at same
  cases second : substitute ⟨pattern, 0, options ||| substituteOverflowLength, none,
      replaceExpression⟩ with
  | failure error =>
    rw [second] at same
    cases same
  | success secondCount secondText =>
    simp only [second] at same
    split at same
    · cases same
      rfl
    · cases same

end

/-! ### Replacing until nothing is left to replace -/

/-- `RegexReplaceAllResult`. -/
inductive ReplaceAllResult where
  | success (string : Bytes)
  | error (code : ℤ)
  deriving DecidableEq

/-- The loop of `Regex::replace_all` for at most so many rounds, by what one replacement gives. -/
def replaceAllLoop (once : Bytes → ReplaceOnceResult) : ℕ → Bytes → Option ReplaceAllResult
  | 0, _ => none
  | rounds + 1, pattern =>
    match once pattern with
    | .error code => some (.error code)
    | .success 0 string => some (.success string)
    | .success (_ + 1) string => replaceAllLoop once rounds string

/-- `Regex::replace_all`, if so many rounds are enough. -/
def replaceAll {MatchContext : Type*} (substitute : Arguments MatchContext → Outcome) (rounds : ℕ)
    (options : UInt32) (pattern replaceExpression : Bytes) (matchContext : Option MatchContext) :
    Option ReplaceAllResult :=
  replaceAllLoop
    (fun pattern => (replace substitute options pattern replaceExpression matchContext).1)
    rounds pattern

/-- Without a match context every replacement of the loop is what one call with enough room
gives. -/
theorem replaceAll_withoutContext {MatchContext : Type*}
    (substitute : Arguments MatchContext → Outcome) (rounds : ℕ) (options : UInt32)
    (pattern replaceExpression : Bytes) :
    replaceAll substitute rounds options pattern replaceExpression none =
      replaceAllLoop (fun pattern =>
        replaceExpected substitute options pattern replaceExpression none) rounds pattern := by
  have once : (fun pattern => (replace substitute options pattern replaceExpression none).1) =
      fun pattern => replaceExpected substitute options pattern replaceExpression none := by
    funext pattern
    exact replace_of_independent substitute options pattern replaceExpression none
      fun _ _ outcome _ => outcome
  rw [replaceAll, once]

/-- A substitution that replaces `a` by two letters and finds its match limit too low without a
match context. -/
def limited (arguments : Arguments Unit) : Outcome :=
  if arguments.matchContext.isSome then .success 1 (ascii "bb")
  else .failure ⟨-47, by decide, by decide⟩

/-- The match context of the caller is not used for an output that is longer than the subject. -/
theorem matchContext_dropped :
    (replace limited 0 (ascii "a") (ascii "bb") (some ())).1 = .error (-47) ∧
      replaceExpected limited 0 (ascii "a") (ascii "bb") (some ()) = .success 1 (ascii "bb") :=
  ⟨rfl, rfl⟩

end NativeLibs.Regex
