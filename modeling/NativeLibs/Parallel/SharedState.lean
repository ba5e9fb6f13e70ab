/-
This file models `any_of_cond` and `all_of` of `parallel.h` with every interleaving
of their steps. The awaiting coroutine adds the awaitables, which starts them, and
then awaits the shared state. The awaitables complete in any order, some while
others are still added, and on any thread.

A section under the mutex is one step. `remaining++` in `run` is not under the
mutex: it is a load and a store, between which a completion on another thread can
take its own step.

The two shared states differ in what a completion stores and when that is enough.
-/

import Mathlib.Data.List.Basic
import NativeLibs.Library.Runs

namespace NativeLibs.Parallel

variable {R Store Out : Type*}

/-! ### The shared state -/

/-- `AnyOfCondSharedState` and `AllOfSharedState`, with `return_value` or `return_values` as what is
stored. -/
structure SharedState (Store : Type*) where
  suspendedHandle : Bool := false
  remaining : ℕ := 0
  returned : Store

/-- What the two shared states do differently. -/
structure Combinator (R Store Out : Type*) where
  /-- What is stored at first. -/
  empty : Store
  /-- The locked section of `run` after `remaining` was decremented: what is stored then, and
  whether a suspended coroutine is resumed. -/
  finish : Store → ℕ → R → Store × Bool
  /-- The condition of `await_ready` and `await_suspend`. -/
  ready : Store → ℕ → Bool
  /-- `await_resume`: what it leaves and what it returns. -/
  take : Store → Store × Out
  /-- `run` holds a weak pointer to the shared state. -/
  weak : Bool

/-- A null `check_cond` holds of every result. -/
def holds (checkCond : Option (R → Bool)) (result : R) : Bool :=
  match checkCond with
  | none => true
  | some condition => condition result

/-- `AnyOfCondSharedState`. A `std::optional` that was moved from still has a value, the one a
result leaves when it is moved from. -/
def anyOfCond (checkCond : Option (R → Bool)) (movedFrom : R → R) :
    Combinator R (Option R) (Option R) where
  empty := none
  finish returnValue remaining result :=
    let hasReturnValue := returnValue.isNone && holds checkCond result
    let returnValue := if hasReturnValue then some result else returnValue
    (returnValue, (returnValue.isNone && remaining == 0) || hasReturnValue)
  ready returnValue remaining := returnValue.isSome || remaining == 0
  take returnValue := (returnValue.map movedFrom, returnValue)
  weak := true

/-- `AllOfSharedState`. -/
def allOf : Combinator R (List R) (List R) where
  empty := []
  finish returnValues remaining result := (returnValues ++ [result], remaining == 0)
  ready _ remaining := remaining == 0
  take returnValues := ([], returnValues)
  weak := false

/-! ### Runs -/

/-- Where the awaiting coroutine is. -/
inductive Position where
  /-- It adds awaitables, or has added them all. -/
  | adding
  /-- It is within `remaining++` and has loaded a value. -/
  | loaded (value : ℕ)
  /-- `await_ready` returned false. -/
  | checked
  /-- `await_ready` returned true, or `await_suspend` was executed. -/
  | awaiting
  deriving DecidableEq

/-- The steps of the coroutine and of the awaitables. -/
inductive Step where
  | load
  | store
  /-- An awaitable completes and executes the locked section of `run`. -/
  | complete (index : ℕ)
  /-- An awaitable completes and finds that the shared state is gone. -/
  | discard (index : ℕ)
  | awaitReady
  | awaitSuspend
  | awaitResume
  deriving DecidableEq

/-- The shared state and what happened. -/
structure World (Store Out : Type*) where
  shared : SharedState Store
  position : Position := .adding
  /-- How many awaitables were started. -/
  started : ℕ := 0
  /-- The awaitables that completed, in the order of the lock. -/
  completed : List ℕ := []
  discarded : List ℕ := []
  /-- How often the coroutine was let go on, by `await_ready` or by `resume`. -/
  continuations : ℕ := 0
  /-- What `await_resume` returned. -/
  results : List Out := []

/-- An awaitable that was started and has not completed. -/
def World.running (world : World Store Out) (index : ℕ) : Bool :=
  index < world.started && !world.completed.contains index && !world.discarded.contains index

/-- The state before anything is added. -/
def Combinator.start (combinator : Combinator R Store Out) : World Store Out :=
  { shared := { returned := combinator.empty } }

/-- One step of a call with a number of awaitables and their results, if it is possible. -/
def Combinator.step (combinator : Combinator R Store Out) (count : ℕ) (result : ℕ → R)
    (world : World Store Out) : Step → Option (World Store Out)
  | .load =>
    if world.position = .adding ∧ world.started < count then
      some { world with position := .loaded world.shared.remaining }
    else none
  | .store =>
    match world.position with
    | .loaded value => some
      { world with
        shared := { world.shared with remaining := value + 1 }
        position := .adding
        started := world.started + 1 }
    | _ => none
  | .complete index =>
    if world.running index then
      let remaining := world.shared.remaining - 1
      let (returned, resumes) := combinator.finish world.shared.returned remaining (result index)
      some
        { world with
          shared := { world.shared with remaining, returned }
          completed := world.completed ++ [index]
          continuations := world.continuations +
            if resumes && world.shared.suspendedHandle then 1 else 0 }
    else none
  | .discard index =>
    if combinator.weak && world.running index && !world.results.isEmpty then
      some { world with discarded := world.discarded ++ [index] }
    else none
  | .awaitReady =>
    if world.position = .adding ∧ world.started = count then
      if combinator.ready world.shared.returned world.shared.remaining then
        some { world with position := .awaiting, continuations := world.continuations + 1 }
      else some { world with position := .checked }
    else none
  | .awaitSuspend =>
    if world.position = .checked then
      some
        { world with
          shared := { world.shared with suspendedHandle := true }
          position := .awaiting
          continuations := world.continuations +
            if combinator.ready world.shared.returned world.shared.remaining then 1 else 0 }
    else none
  | .awaitResume =>
    if world.results.length < world.continuations then
      let (left, out) := combinator.take world.shared.returned
      some
        { world with
          shared := { world.shared with returned := left }
          results := world.results ++ [out] }
    else none

/-- No completion takes the lock within a `remaining++`. -/
def Unsplit (world : World Store Out) : Step → Prop
  | .complete _ => ∀ value, world.position ≠ .loaded value
  | _ => True

/-- The coroutine has awaited, and every awaitable has completed. -/
def Over (count : ℕ) (world : World Store Out) : Prop :=
  world.position = .awaiting ∧
    ∀ index < count, index ∈ world.completed ∨ index ∈ world.discarded

end NativeLibs.Parallel
