/-
This file is a small library on processes that are switched over once. A state
is open until an input trips it, from then on it is done, and a weight grows
with what was put in. The one result asks when the switch is an honest account
of the weight: the process is done exactly when the weight has reached a given
amount.
-/

import Mathlib.Data.List.Basic
import Mathlib.Tactic

namespace NativeLibs.Library

variable {State Input : Type*}

/-- A process that is open until an input trips it and done from then on. Inputs that do not
trip it add no weight, the one that does adds its size. -/
structure Switch (step : State → Input → State) (weight : State → Nat) (size : Input → Nat)
    (trips : Input → Bool) (isOpen isDone : State → Prop) : Prop where
  exclusive : ∀ state, isOpen state → ¬isDone state
  stays : ∀ state input, isOpen state → trips input = false →
    isOpen (step state input) ∧ weight (step state input) = weight state
  switches : ∀ state input, isOpen state → trips input = true →
    isDone (step state input) ∧ weight (step state input) = weight state + size input
  keeps : ∀ state input, isDone state →
    isDone (step state input) ∧ weight state ≤ weight (step state input)

variable {step : State → Input → State} {weight : State → Nat} {size : Input → Nat}
  {trips : Input → Bool} {isOpen isDone : State → Prop}

theorem Switch.open_foldl (switch : Switch step weight size trips isOpen isDone) (start : State)
    (inputs : List Input) (opened : isOpen start) (idle : ∀ input ∈ inputs, trips input = false) :
    isOpen (inputs.foldl step start) ∧ weight (inputs.foldl step start) = weight start := by
  induction inputs generalizing start with
  | nil => exact ⟨opened, rfl⟩
  | cons input rest inductionHypothesis =>
    obtain ⟨stillOpen, same⟩ := switch.stays start input opened (idle input List.mem_cons_self)
    obtain ⟨finallyOpen, finallySame⟩ := inductionHypothesis (step start input) stillOpen
      fun other member => idle other (List.mem_cons_of_mem _ member)
    exact ⟨finallyOpen, finallySame.trans same⟩

/-- A process that is done stays so, and its weight does not shrink. -/
theorem Switch.done_foldl (switch : Switch step weight size trips isOpen isDone) (start : State)
    (inputs : List Input) (finished : isDone start) :
    isDone (inputs.foldl step start) ∧ weight start ≤ weight (inputs.foldl step start) := by
  induction inputs generalizing start with
  | nil => exact ⟨finished, le_rfl⟩
  | cons input rest inductionHypothesis =>
    obtain ⟨stillDone, grows⟩ := switch.keeps start input finished
    obtain ⟨finallyDone, finallyGrows⟩ := inductionHypothesis (step start input) stillDone
    exact ⟨finallyDone, grows.trans finallyGrows⟩

/-- The switch accounts for an amount at every point exactly when the amount is not zero and the
first input that trips it covers the amount alone. -/
theorem Switch.accounts_iff (switch : Switch step weight size trips isOpen isDone)
    (start : State) (inputs : List Input) (amount : Nat) (opened : isOpen start)
    (weightless : weight start = 0) :
    (∀ count, isDone ((inputs.take count).foldl step start) ↔
        amount ≤ weight ((inputs.take count).foldl step start)) ↔
      1 ≤ amount ∧ ∀ input, inputs.find? trips = some input → amount ≤ size input := by
  constructor
  · intro accounts
    refine ⟨?_, fun input found => ?_⟩
    · by_contra none
      refine switch.exclusive start opened ((accounts 0).mpr ?_)
      exact (Nat.lt_one_iff.mp (not_le.mp none)).le.trans (Nat.zero_le _)
    · obtain ⟨trip, before, after, rfl, idle⟩ := List.find?_eq_some_iff_append.mp found
      have taken : (before ++ input :: after).take (before.length + 1) = before ++ [input] := by
        rw [List.take_append, List.take_of_length_le (Nat.le_succ _), Nat.add_sub_cancel_left]
        rfl
      obtain ⟨stillOpen, same⟩ := switch.open_foldl start before opened
        fun other member => by simpa using idle other member
      obtain ⟨finished, total⟩ := switch.switches _ input stillOpen trip
      have reached := accounts (before.length + 1)
      rw [taken, List.foldl_append] at reached
      have covered := reached.mp finished
      rw [List.foldl_cons, List.foldl_nil, total, same, weightless, Nat.zero_add] at covered
      exact covered
  · rintro ⟨positive, covers⟩ count
    cases found : (inputs.take count).find? trips with
    | none =>
      have idle : ∀ input ∈ inputs.take count, trips input = false := by
        intro input member
        simpa using List.find?_eq_none.mp found input member
      obtain ⟨stillOpen, same⟩ := switch.open_foldl start _ opened idle
      refine ⟨fun finished => absurd finished (switch.exclusive _ stillOpen), fun reached => ?_⟩
      rw [same, weightless] at reached
      exact absurd (positive.trans reached) (Nat.not_succ_le_zero 0)
    | some input =>
      have first : inputs.find? trips = some input := by
        rw [← List.take_append_drop count inputs, List.find?_append, found]
        rfl
      obtain ⟨trip, before, after, taken, idle⟩ := List.find?_eq_some_iff_append.mp found
      obtain ⟨stillOpen, same⟩ := switch.open_foldl start before opened
        fun other member => by simpa using idle other member
      obtain ⟨tripped, total⟩ := switch.switches _ input stillOpen trip
      obtain ⟨finished, grows⟩ := switch.done_foldl _ after tripped
      rw [taken, List.foldl_append, List.foldl_cons]
      refine ⟨fun _ => le_trans ?_ grows, fun _ => finished⟩
      rw [total]
      exact (covers input first).trans (Nat.le_add_left _ _)

end NativeLibs.Library
