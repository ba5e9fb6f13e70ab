/-
This file is the project's small library on runs of a step function. A step
takes a state and an input and may have no result, and a run takes the inputs
of a list one after another. The rules here reduce a fact about whole runs to
one fact about a single step: an invariant that every step keeps, or that every
step keeps as long as the steps of the run meet a condition; a second step
function that follows the first; a fact that holds throughout a run exactly when
its steps meet a condition; and a log to which steps add only if they do not.
The last rules are about steps that always have a result: a flag that some steps
set and some keep is set after a run exactly if it was set and kept since.
-/

import Mathlib.Logic.Basic
import Mathlib.Tactic

namespace NativeLibs.Library

variable {State Input : Type*}

/-- The state after a list of inputs, if every step has a result. -/
def run (step : State → Input → Option State) : State → List Input → Option State
  | state, [] => some state
  | state, input :: rest => (step state input).bind fun next => run step next rest

/-- Every step of a run meets a condition on the state before it and its input. -/
def Along (step : State → Input → Option State) (condition : State → Input → Prop) :
    State → List Input → Prop
  | _, [] => True
  | state, input :: rest =>
    condition state input ∧ ∀ next, step state input = some next → Along step condition next rest

variable {step : State → Input → Option State} {condition : State → Input → Prop}
  {invariant : State → Prop}

/-- A run whose first step is known meets a condition if that step does and the rest does. -/
theorem Along.cons {state next : State} {input : Input} {rest : List Input}
    (stepped : step state input = some next) (meets : condition state input)
    (later : Along step condition next rest) : Along step condition state (input :: rest) := by
  refine ⟨meets, fun other otherStep => ?_⟩
  obtain rfl := Option.some.inj (stepped.symm.trans otherStep)
  exact later

theorem Along.of_mem {inputs : List Input}
    (always : ∀ input ∈ inputs, ∀ state, condition state input) (state : State) :
    Along step condition state inputs := by
  induction inputs generalizing state with
  | nil => trivial
  | cons input rest inductionHypothesis =>
    obtain ⟨first, others⟩ := List.forall_mem_cons.mp always
    exact ⟨first state, fun next _ => inductionHypothesis others next⟩

theorem Along.of_forall (always : ∀ state input, condition state input) (state : State)
    (inputs : List Input) : Along step condition state inputs :=
  .of_mem (fun input _ state => always state input) state

theorem Along.and {other : State → Input → Prop} {state : State} {inputs : List Input}
    (first : Along step condition state inputs) (second : Along step other state inputs) :
    Along step (fun state input => condition state input ∧ other state input) state inputs := by
  induction inputs generalizing state with
  | nil => trivial
  | cons input rest inductionHypothesis =>
    exact ⟨⟨first.1, second.1⟩, fun next stepped =>
      inductionHypothesis (first.2 next stepped) (second.2 next stepped)⟩

theorem Along.of_run {state final : State} {inputs : List Input}
    (reached : run step state inputs = some final) :
    Along step (fun state input => ∃ next, step state input = some next) state inputs := by
  induction inputs generalizing state with
  | nil => trivial
  | cons input rest inductionHypothesis =>
    obtain ⟨next, stepped, reached⟩ := Option.bind_eq_some_iff.mp reached
    exact .cons stepped ⟨next, stepped⟩ (inductionHypothesis reached)

/-- What a step keeps while it meets the condition, a run keeps whose steps all meet it. -/
theorem run_invariant_along
    (keeps : ∀ state input next, invariant state → condition state input →
      step state input = some next → invariant next)
    {state final : State} {inputs : List Input} (start : invariant state)
    (meets : Along step condition state inputs) (reached : run step state inputs = some final) :
    invariant final := by
  induction inputs generalizing state with
  | nil => exact Option.some.inj reached ▸ start
  | cons input rest inductionHypothesis =>
    obtain ⟨next, stepped, reached⟩ := Option.bind_eq_some_iff.mp reached
    exact inductionHypothesis (keeps state input next start meets.1 stepped)
      (meets.2 next stepped) reached

/-- What every step keeps, every run keeps. -/
theorem run_invariant
    (keeps : ∀ state input next, invariant state → step state input = some next →
      invariant next)
    {state final : State} {inputs : List Input} (start : invariant state)
    (reached : run step state inputs = some final) : invariant final := by
  induction inputs generalizing state with
  | nil => exact Option.some.inj reached ▸ start
  | cons input rest inductionHypothesis =>
    obtain ⟨next, stepped, reached⟩ := Option.bind_eq_some_iff.mp reached
    exact inductionHypothesis (keeps state input next start stepped) reached

/-- If a step that meets the condition has a result and keeps the invariant, a run whose steps all
meet it has a result with the invariant. -/
theorem run_defined_along
    (keeps : ∀ state input, invariant state → condition state input →
      ∃ next, step state input = some next ∧ invariant next)
    {state : State} {inputs : List Input} (start : invariant state)
    (meets : Along step condition state inputs) :
    ∃ final, run step state inputs = some final ∧ invariant final := by
  induction inputs generalizing state with
  | nil => exact ⟨state, rfl, start⟩
  | cons input rest inductionHypothesis =>
    obtain ⟨next, stepped, kept⟩ := keeps state input start meets.1
    rw [run, stepped, Option.bind_some]
    exact inductionHypothesis kept (meets.2 next stepped)

/-- A log that every step extends stays empty exactly when the steps meet the condition under which
they add nothing. -/
theorem run_log_eq_nil_iff {Entry : Type*} {log : State → List Entry}
    (grows : ∀ state input next, step state input = some next →
      ∃ added, log next = log state ++ added ∧ (added = [] ↔ condition state input))
    {state final : State} {inputs : List Input} (reached : run step state inputs = some final) :
    log final = [] ↔ log state = [] ∧ Along step condition state inputs := by
  induction inputs generalizing state with
  | nil =>
    obtain rfl := Option.some.inj reached
    exact (and_iff_left trivial).symm
  | cons input rest inductionHypothesis =>
    obtain ⟨next, stepped, reached⟩ := Option.bind_eq_some_iff.mp reached
    obtain ⟨added, extended, quiet⟩ := grows state input next stepped
    rw [inductionHypothesis reached, extended, List.append_eq_nil_iff, quiet, and_assoc]
    refine and_congr_right fun _ => ⟨fun ⟨meets, later⟩ => .cons stepped meets later, ?_⟩
    exact fun ⟨meets, later⟩ => ⟨meets, later next stepped⟩

/-- What follows a step follows a run. -/
theorem run_simulation {Partner : Type*} {follow : Partner → Input → Option Partner}
    {related : State → Partner → Prop}
    (simulates : ∀ state partner input, related state partner → condition state input →
      ∃ next nextPartner, step state input = some next ∧ follow partner input = some nextPartner ∧
        related next nextPartner)
    {state : State} {partner : Partner} {inputs : List Input} (start : related state partner)
    (meets : Along step condition state inputs) :
    ∃ final finalPartner, run step state inputs = some final ∧
      run follow partner inputs = some finalPartner ∧ related final finalPartner := by
  induction inputs generalizing state partner with
  | nil => exact ⟨state, partner, rfl, rfl, start⟩
  | cons input rest inductionHypothesis =>
    obtain ⟨next, nextPartner, stepped, followed, kept⟩ :=
      simulates state partner input start meets.1
    rw [run, run, stepped, followed, Option.bind_some, Option.bind_some]
    exact inductionHypothesis kept (meets.2 next stepped)

/-- A fact holds after every step of a run exactly when the steps meet a condition: a step that
meets it keeps an invariant with the fact, a step that does not destroys the fact. -/
theorem run_throughout_iff {allowed : State → Input → Prop} {holds : State → Prop}
    (implies : ∀ state, invariant state → holds state)
    (keeps : ∀ state input, invariant state → allowed state input → condition state input →
      ∃ next, step state input = some next ∧ invariant next)
    (breaks : ∀ state input next, invariant state → allowed state input →
      ¬condition state input → step state input = some next → ¬holds next)
    {state : State} {inputs : List Input} (start : invariant state)
    (permitted : Along step allowed state inputs) :
    (∀ count, ∃ reached, run step state (inputs.take count) = some reached ∧ holds reached) ↔
      Along step condition state inputs := by
  induction inputs generalizing state with
  | nil => exact ⟨fun _ => trivial, fun _ count => ⟨state, by rw [List.take_nil, run],
      implies state start⟩⟩
  | cons input rest inductionHypothesis =>
    constructor
    · intro throughout
      obtain ⟨next, stepped, holdsNext⟩ := throughout 1
      rw [List.take_succ_cons, List.take_zero, run] at stepped
      obtain ⟨first, stepped, same⟩ := Option.bind_eq_some_iff.mp stepped
      cases same
      have meets : condition state input := by
        by_contra fails
        exact breaks state input next start permitted.1 fails stepped holdsNext
      obtain ⟨kept, keptStep, keptInvariant⟩ := keeps state input start permitted.1 meets
      obtain rfl := Option.some.inj (stepped.symm.trans keptStep)
      refine ⟨meets, fun other otherStep => ?_⟩
      obtain rfl := Option.some.inj (stepped.symm.trans otherStep)
      refine (inductionHypothesis keptInvariant (permitted.2 _ stepped)).mp fun count => ?_
      obtain ⟨reached, ran, holdsReached⟩ := throughout (count + 1)
      rw [List.take_succ_cons, run, stepped, Option.bind_some] at ran
      exact ⟨reached, ran, holdsReached⟩
    · rintro ⟨meets, later⟩ count
      cases count with
      | zero => exact ⟨state, rfl, implies state start⟩
      | succ count =>
        obtain ⟨next, stepped, kept⟩ := keeps state input start permitted.1 meets
        rw [List.take_succ_cons, run, stepped, Option.bind_some]
        exact (inductionHypothesis kept (permitted.2 next stepped)).mpr (later next stepped) count

/-- A flag is set after a run if it was set before and every step kept it, or if a step set it and
every later step kept it. -/
theorem foldl_flag_iff {follow : State → Input → State} (flag : State → Prop)
    (sets : State → Input → Prop) (keeps : Input → Prop)
    (next : ∀ state input,
      flag (follow state input) ↔ sets state input ∨ flag state ∧ keeps input)
    (state : State) (inputs : List Input) :
    flag (inputs.foldl follow state) ↔ (flag state ∧ ∀ input ∈ inputs, keeps input) ∨
      ∃ before input later, inputs = before ++ input :: later ∧
        sets (before.foldl follow state) input ∧ ∀ other ∈ later, keeps other := by
  induction inputs generalizing state with
  | nil =>
    refine ⟨fun set => .inl ⟨set, List.forall_mem_nil _⟩, ?_⟩
    rintro (⟨set, -⟩ | ⟨before, input, later, split, -⟩)
    · exact set
    · exact absurd split.symm (List.append_ne_nil_of_right_ne_nil _ (List.cons_ne_nil _ _))
  | cons first rest inductionHypothesis =>
    rw [List.foldl_cons, inductionHypothesis, next]
    constructor
    · rintro (⟨set | ⟨set, kept⟩, later⟩ | ⟨before, input, later, rfl, set, kept⟩)
      · exact .inr ⟨[], first, rest, rfl, set, later⟩
      · exact .inl ⟨set, List.forall_mem_cons.mpr ⟨kept, later⟩⟩
      · exact .inr ⟨first :: before, input, later, rfl, set, kept⟩
    · rintro (⟨set, all⟩ | ⟨before, input, later, split, set, kept⟩)
      · obtain ⟨kept, later⟩ := List.forall_mem_cons.mp all
        exact .inl ⟨.inr ⟨set, kept⟩, later⟩
      · cases before with
        | nil =>
          obtain ⟨rfl, rfl⟩ := List.cons.inj split
          exact .inl ⟨.inl set, kept⟩
        | cons other before =>
          obtain ⟨rfl, rfl⟩ := List.cons.inj split
          exact .inr ⟨before, input, later, rfl, set, kept⟩

/-- A flag that every step keeps is set after a run if it was set before or if a step set it. -/
theorem foldl_latch_iff {follow : State → Input → State} (flag : State → Prop)
    (sets : State → Input → Prop)
    (next : ∀ state input, flag (follow state input) ↔ flag state ∨ sets state input)
    (state : State) (inputs : List Input) :
    flag (inputs.foldl follow state) ↔ flag state ∨
      ∃ before input later, inputs = before ++ input :: later ∧
        sets (before.foldl follow state) input := by
  refine (foldl_flag_iff flag sets (fun _ => True) (fun state input => ?_) state inputs).trans ?_
  · rw [next, and_true, or_comm]
  · simp only [implies_true, and_true]

end NativeLibs.Library
