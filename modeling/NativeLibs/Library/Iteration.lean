/-
This file is the project's library on loops from one iterator to another. All
that such a loop needs is to compare two iterators, to look at the value of one
and to move it on, and the last two may have no result. A loop is run for a
number of rounds. If moving on leads to the end, it collects what is on the way
as soon as it has one round more than there are values.
-/

import Mathlib.Tactic

namespace NativeLibs.Library

/-- What a loop does with its iterators. -/
structure Iteration (Iterator Value : Type*) where
  equals : Iterator → Iterator → Bool
  current : Iterator → Option Value
  advance : Iterator → Option Iterator

namespace Iteration

variable {Iterator Value : Type*} (iteration : Iteration Iterator Value)

/-- The loop from one iterator to another, for a number of rounds. -/
def collect (last : Iterator) : ℕ → Iterator → Option (List Value)
  | 0, _ => none
  | rounds + 1, iterator =>
    if iteration.equals iterator last then some []
    else
      (iteration.current iterator).bind fun value =>
        (iteration.advance iterator).bind fun next =>
          (collect last rounds next).map fun rest => value :: rest

/-- Moving an iterator on to another yields a list of values. -/
inductive Yields (last : Iterator) : Iterator → List Value → Prop where
  | nil {iterator : Iterator} (ended : iteration.equals iterator last = true) :
      Yields last iterator []
  | cons {iterator next : Iterator} {value : Value} {rest : List Value}
      (goesOn : iteration.equals iterator last = false)
      (current : iteration.current iterator = some value)
      (advanced : iteration.advance iterator = some next) (later : Yields last next rest) :
      Yields last iterator (value :: rest)

variable {iteration}

theorem collect_of_yields {last iterator : Iterator} {values : List Value}
    (yields : iteration.Yields last iterator values) {rounds : ℕ}
    (enough : values.length < rounds) : iteration.collect last rounds iterator = some values := by
  induction yields generalizing rounds with
  | nil ended =>
    cases rounds with
    | zero => exact absurd enough (Nat.not_lt_zero _)
    | succ rounds => rw [collect, if_pos ended]
  | cons goesOn current advanced later inductionHypothesis =>
    cases rounds with
    | zero => exact absurd enough (Nat.not_lt_zero _)
    | succ rounds =>
      rw [collect, goesOn, if_neg Bool.false_ne_true, current, Option.bind_some, advanced,
        Option.bind_some, inductionHypothesis (Nat.lt_of_succ_lt_succ enough), Option.map_some]

end Iteration

end NativeLibs.Library
