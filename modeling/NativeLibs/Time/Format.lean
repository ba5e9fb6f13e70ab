/-
This file models `inject_microseconds_and_gmt` of `common/time_utils.cpp`, which
puts the microseconds, and the zone of GMT, into a format string before it is given
to `std::put_time`. The function is a machine of two states over the characters of
the format: behind a percent sign it looks at the next character, and a conversion
that it does not know is written as it is, through a jump into the other state.

What the machine means is said by tokens: a percent sign with the character behind
it, a percent sign at the end, or any other character. The output has the tokens of
the input, with those that are known replaced. In particular a doubled percent sign
is one token, and what stands behind it is none of its business.
-/

import NativeLibs.Text.Bytes

namespace NativeLibs.Time

/-! ### The machine -/

/-- `'%'`. -/
def percentSign : UInt8 := 37

/-- An integer as `fmt` prints it with `{:0width}`: the zeros stand behind the sign. -/
def formatPadded (width : ℕ) : ℤ → Bytes
  | .ofNat number =>
    let digits := formatNat 10 number
    List.replicate (width - digits.length) 48 ++ digits
  | .negSucc number =>
    let digits := formatNat 10 (number + 1)
    45 :: (List.replicate (width - 1 - digits.length) 48 ++ digits)

/-- The states of the machine. -/
inductive State where
  | default
  | afterPercent
  deriving DecidableEq

/-- The variables of the loop: the state, the microseconds once printed, and the output. -/
structure Injection where
  state : State
  usString : Bytes
  formatString : Bytes
  deriving DecidableEq

/-- `case DEFAULT`, which is also where the jump goes. -/
def stateDefault (injection : Injection) (ch : UInt8) : Injection :=
  if ch = percentSign then { injection with state := .afterPercent }
  else { injection with formatString := injection.formatString ++ [ch] }

/-- The loop's body for one character. -/
def step (us : Int64) (gmt : Bool) (injection : Injection) (ch : UInt8) : Injection :=
  match injection.state with
  | .default => stateDefault injection ch
  | .afterPercent =>
    if ch = 102 then
      let usString :=
        if injection.usString.isEmpty then formatPadded 6 us.toInt else injection.usString
      ⟨.default, usString, injection.formatString ++ usString⟩
    else if ch = percentSign then
      { injection with state := .default, formatString := injection.formatString ++ ascii "%%" }
    else if (ch = 122 ∨ ch = 90) ∧ gmt then
      { injection with
        state := .default
        formatString := injection.formatString ++ ascii (if ch = 122 then "+0000" else "GMT") }
    else
      stateDefault
        { injection with
          state := .default
          formatString := injection.formatString ++ [percentSign] }
        ch

/-- What is written after the loop. -/
def finish (injection : Injection) : Bytes :=
  if injection.state = .afterPercent then injection.formatString ++ [percentSign]
  else injection.formatString

/-- `inject_microseconds_and_gmt`. -/
def injectMicrosecondsAndGmt (us : Int64) (gmt : Bool) (format : Bytes) : Bytes :=
  finish (format.foldl (step us gmt) ⟨.default, [], []⟩)

/-! ### Tokens -/

/-- The tokens of a format. -/
inductive Token where
  | conversion (ch : UInt8)
  | percent
  | letter (ch : UInt8)
  deriving DecidableEq

/-- The tokens of a format, from left to right. -/
def tokens : Bytes → List Token
  | [] => []
  | [ch] => if ch = percentSign then [.percent] else [.letter ch]
  | first :: second :: rest =>
    if first = percentSign then .conversion second :: tokens rest
    else .letter first :: tokens (second :: rest)

/-- The last so many decimal digits of a number. -/
def decimalField (width number : ℕ) : Bytes := digitField 10 digitChar width number

/-- What stands for a token in the output. -/
def replaced (us : ℕ) (gmt : Bool) : Token → List Token
  | .conversion ch =>
    if ch = 102 then (decimalField 6 us).map .letter
    else if ch = 122 ∧ gmt then (ascii "+0000").map .letter
    else if ch = 90 ∧ gmt then (ascii "GMT").map .letter
    else [.conversion ch]
  | .percent => [.percent]
  | .letter ch => [.letter ch]

theorem tokens_letter {ch : UInt8} (other : ch ≠ percentSign) (rest : Bytes) :
    tokens (ch :: rest) = .letter ch :: tokens rest := by
  cases rest with
  | nil => exact if_neg other
  | cons second rest => exact if_neg other

theorem tokens_conversion (ch : UInt8) (rest : Bytes) :
    tokens (percentSign :: ch :: rest) = .conversion ch :: tokens rest := by
  rw [tokens, if_pos rfl]

theorem tokens_append {letters : Bytes} (plain : percentSign ∉ letters) (rest : Bytes) :
    tokens (letters ++ rest) = letters.map .letter ++ tokens rest := by
  induction letters with
  | nil => rfl
  | cons ch letters inductionHypothesis =>
    rw [List.mem_cons, not_or] at plain
    rw [List.cons_append, tokens_letter (Ne.symm plain.1), inductionHypothesis plain.2]
    rfl

/-! ### The digits -/

theorem decimalField_succ (width number : ℕ) :
    decimalField (width + 1) number =
      decimalField width (number / 10) ++ [digitChar (number % 10)] := rfl

theorem decimalField_zero (width : ℕ) : decimalField width 0 = List.replicate width 48 := by
  induction width with
  | zero => rfl
  | succ width inductionHypothesis =>
    rw [decimalField_succ, inductionHypothesis, List.replicate_succ']
    rfl

theorem formatNat_of_ge {number : ℕ} (several : 10 ≤ number) :
    formatNat 10 number = formatNat 10 (number / 10) ++ [digitChar (number % 10)] := by
  have front : number / 10 ≠ 0 := (Nat.div_pos several (by decide)).ne'
  rw [formatNat, formatNat, if_neg (by omega), if_neg front,
    Nat.digits_def' (by decide) (by omega : 0 < number), List.map_cons, List.reverse_cons]

theorem formatNat_of_lt {number : ℕ} (single : number < 10) :
    formatNat 10 number = [digitChar number] := by
  rw [formatNat]
  by_cases zero : number = 0
  · rw [if_pos zero, zero]
    rfl
  · rw [if_neg zero, Nat.digits_of_lt 10 number zero single]
    rfl

theorem formatPadded_eq {width number : ℕ} (fits : number < 10 ^ (width + 1)) :
    formatPadded (width + 1) (.ofNat number) = decimalField (width + 1) number := by
  induction width generalizing number with
  | zero =>
    rw [Nat.zero_add, pow_one] at fits
    rw [formatPadded, decimalField_succ, formatNat_of_lt fits, Nat.mod_eq_of_lt fits]
    rfl
  | succ width inductionHypothesis =>
    by_cases single : number < 10
    · rw [formatPadded, decimalField_succ, formatNat_of_lt single, Nat.mod_eq_of_lt single,
        Nat.div_eq_of_lt single, decimalField_zero]
      rfl
    · have front : number / 10 < 10 ^ (width + 1) := by
        rw [Nat.div_lt_iff_lt_mul (by decide), ← pow_succ]
        exact fits
      have printed := inductionHypothesis front
      rw [formatPadded] at printed ⊢
      rw [decimalField_succ, ← printed, formatNat_of_ge (Nat.not_lt.mp single)]
      simp only [List.length_append, List.length_singleton, Nat.add_sub_add_right,
        List.append_assoc]

theorem digitChar_ne_percentSign {digit : ℕ} (small : digit < 10) :
    percentSign ≠ digitChar digit := by
  have all : ∀ digit < 10, percentSign ≠ digitChar digit := by decide
  exact all digit small

theorem percentSign_notMem_decimalField (width number : ℕ) :
    percentSign ∉ decimalField width number := by
  intro member
  obtain ⟨digit, small, same⟩ := mem_digitField (by decide) member
  exact digitChar_ne_percentSign small same

/-! ### What the machine writes -/

/-- The characters that are written for a token. -/
def written (us : Int64) (gmt : Bool) : Token → Bytes
  | .conversion ch =>
    if ch = 102 then formatPadded 6 us.toInt
    else if ch = 122 ∧ gmt then ascii "+0000"
    else if ch = 90 ∧ gmt then ascii "GMT"
    else [percentSign, ch]
  | .percent => [percentSign]
  | .letter ch => [ch]

/-- The microseconds were printed, or not yet. -/
def Printed (us : Int64) (usString : Bytes) : Prop :=
  usString = [] ∨ usString = formatPadded 6 us.toInt

theorem step_letter (us : Int64) (gmt : Bool) {ch : UInt8} (other : ch ≠ percentSign)
    (usString out : Bytes) :
    step us gmt ⟨.default, usString, out⟩ ch = ⟨.default, usString, out ++ [ch]⟩ :=
  if_neg other

theorem step_percentSign (us : Int64) (gmt : Bool) (usString out : Bytes) :
    step us gmt ⟨.default, usString, out⟩ percentSign = ⟨.afterPercent, usString, out⟩ :=
  rfl

/-- Behind a percent sign a character completes a token. -/
theorem step_afterPercent {us : Int64} (gmt : Bool) (ch : UInt8) {usString : Bytes}
    (printed : Printed us usString) (out : Bytes) :
    ∃ next, Printed us next ∧ step us gmt ⟨.afterPercent, usString, out⟩ ch =
      ⟨.default, next, out ++ written us gmt (.conversion ch)⟩ := by
  rw [step, written]
  simp only
  by_cases micros : ch = 102
  · have string : (if usString.isEmpty then formatPadded 6 us.toInt else usString) =
        formatPadded 6 us.toInt := by
      rcases printed with rfl | rfl
      · rfl
      · exact ite_self _
    rw [if_pos micros, if_pos micros, string]
    exact ⟨_, .inr rfl, rfl⟩
  rw [if_neg micros, if_neg micros]
  refine ⟨usString, printed, ?_⟩
  by_cases doubled : ch = percentSign
  · subst doubled
    rfl
  rw [if_neg doubled]
  cases gmt with
  | false =>
    rw [if_neg (fun both => Bool.false_ne_true both.2),
      if_neg (fun both => Bool.false_ne_true both.2),
      if_neg (fun both => Bool.false_ne_true both.2), stateDefault, if_neg doubled]
    simp only [List.append_assoc, List.singleton_append]
  | true =>
    by_cases zone : ch = 122
    · subst zone
      rfl
    by_cases name : ch = 90
    · subst name
      rfl
    rw [if_neg (fun both => both.1.elim zone name), if_neg (fun both => zone both.1),
      if_neg (fun both => name both.1), stateDefault, if_neg doubled]
    simp only [List.append_assoc, List.singleton_append]

theorem finish_foldl (us : Int64) (gmt : Bool) (format : Bytes) {usString : Bytes}
    (printed : Printed us usString) (out : Bytes) :
    finish (format.foldl (step us gmt) ⟨.default, usString, out⟩) =
      out ++ (tokens format).flatMap (written us gmt) := by
  fun_induction tokens format generalizing usString out with
  | case1 => exact (List.append_nil out).symm
  | case2 =>
    rw [List.foldl_cons, step_percentSign, List.foldl_nil]
    rfl
  | case3 ch other =>
    rw [List.foldl_cons, step_letter us gmt other, List.foldl_nil]
    rfl
  | case4 second rest inductionHypothesis =>
    obtain ⟨next, nextPrinted, completed⟩ := step_afterPercent gmt second printed out
    rw [List.foldl_cons, List.foldl_cons, step_percentSign, completed,
      inductionHypothesis nextPrinted, List.flatMap_cons, List.append_assoc]
  | case5 first second rest other inductionHypothesis =>
    rw [List.foldl_cons, step_letter us gmt other, inductionHypothesis printed, List.flatMap_cons,
      List.append_assoc]
    rfl

theorem injectMicrosecondsAndGmt_eq (us : Int64) (gmt : Bool) (format : Bytes) :
    injectMicrosecondsAndGmt us gmt format = (tokens format).flatMap (written us gmt) :=
  finish_foldl us gmt format (.inl rfl) []

/-! ### The tokens of the output -/

/-- The microseconds of a second. -/
def micros (us : Fin 1000000) : Int64 := Int64.ofNat us

theorem toInt_micros (us : Fin 1000000) : (micros us).toInt = .ofNat us := by
  have small := us.isLt
  exact Int64.toInt_ofNat_of_lt (by omega)

theorem formatPadded_micros (us : Fin 1000000) :
    formatPadded 6 (micros us).toInt = decimalField 6 us := by
  rw [toInt_micros]
  exact formatPadded_eq us.isLt

theorem tokens_written (us : Fin 1000000) (gmt : Bool) (ch : UInt8) (rest : Bytes) :
    tokens (written (micros us) gmt (.conversion ch) ++ rest) =
      replaced us gmt (.conversion ch) ++ tokens rest := by
  rw [written, replaced, formatPadded_micros]
  split_ifs
  · exact tokens_append (percentSign_notMem_decimalField 6 us) rest
  · exact tokens_append (by decide) rest
  · exact tokens_append (by decide) rest
  · exact tokens_conversion ch rest

/-- For every format, every number of microseconds of a second and both values of `gmt`: the output
has the tokens of the input, of which `%f` is replaced by the six digits, and for GMT `%z` and `%Z`
by the zone. A doubled percent sign stays, whatever stands behind it. -/
theorem tokens_injectMicrosecondsAndGmt (format : Bytes) (us : Fin 1000000) (gmt : Bool) :
    tokens (injectMicrosecondsAndGmt (micros us) gmt format) =
        (tokens format).flatMap (replaced us gmt) ∧
      injectMicrosecondsAndGmt (micros us) gmt (ascii "%%f") = ascii "%%f" := by
  refine ⟨?_, injectMicrosecondsAndGmt_eq _ _ _⟩
  rw [injectMicrosecondsAndGmt_eq]
  fun_induction tokens format with
  | case1 => rfl
  | case2 => rfl
  | case3 ch other => exact tokens_letter other []
  | case4 second rest inductionHypothesis =>
    rw [List.flatMap_cons, List.flatMap_cons, tokens_written, inductionHypothesis]
  | case5 first second rest other inductionHypothesis =>
    rw [List.flatMap_cons, List.flatMap_cons, ← inductionHypothesis]
    exact tokens_letter other _

end NativeLibs.Time
