/-
This file proves that the coroutine that awaits `any_of_cond` or `all_of` goes on
exactly once and with the right result, as long as no completion takes the lock
within a `remaining++`. A completion that does is overwritten by the store, and
then `remaining` never gets to zero.

Readiness carries the argument. It never goes away, and the section that makes the
shared state ready is the one that resumes a suspended coroutine. Both shared
states have these laws, and the rest is proved from the laws.
-/

import NativeLibs.Parallel.SharedState

namespace NativeLibs.Parallel

open Library

variable {R Store Out : Type*}

/-! ### The laws -/

/-- What is stored is determined by the results so far, readiness does not go away, and a completion
resumes exactly when it makes the shared state ready. -/
structure Lawful (combinator : Combinator R Store Out) where
  /-- What is stored after a list of results. -/
  content : List R → Store
  content_nil : content [] = combinator.empty
  content_append : ∀ results remaining result,
    (combinator.finish (content results) remaining result).1 = content (results ++ [result])
  ready_finish : ∀ returned remaining result, combinator.ready returned (remaining + 1) = true →
    combinator.ready (combinator.finish returned remaining result).1 remaining = true
  resumes : ∀ returned remaining result,
    (combinator.finish returned remaining result).2 =
      (!combinator.ready returned (remaining + 1) &&
        combinator.ready (combinator.finish returned remaining result).1 remaining)
  ready_take : ∀ returned remaining,
    combinator.ready (combinator.take returned).1 remaining = combinator.ready returned remaining
  settled : ∀ results remaining result, combinator.ready (content results) (remaining + 1) = true →
    (combinator.take (content (results ++ [result]))).2 = (combinator.take (content results)).2
  ready_zero : ∀ returned, combinator.ready returned 0 = true

/-- The first result that satisfies the condition is stored. -/
def anyOfCond_lawful (checkCond : Option (R → Bool)) (movedFrom : R → R) :
    Lawful (anyOfCond checkCond movedFrom) where
  content results := results.find? (holds checkCond)
  content_nil := rfl
  content_append results remaining result := by
    rw [List.find?_append]
    cases found : results.find? (holds checkCond) with
    | none => cases satisfied : holds checkCond result <;> simp [anyOfCond, satisfied]
    | some first => simp [anyOfCond]
  ready_finish returned remaining result ready := by
    cases returned with
    | none => simp [anyOfCond] at ready
    | some first => simp [anyOfCond]
  resumes returned remaining result := by
    cases returned with
    | none => cases satisfied : holds checkCond result <;> simp [anyOfCond, satisfied]
    | some first => simp [anyOfCond]
  ready_take returned remaining := by simp [anyOfCond]
  settled results remaining result ready := by
    rw [List.find?_append]
    cases found : results.find? (holds checkCond) with
    | none => simp [anyOfCond, found] at ready
    | some first => simp [anyOfCond]
  ready_zero returned := by simp [anyOfCond]

/-- All results are stored. -/
def allOf_lawful : Lawful (allOf : Combinator R (List R) (List R)) where
  content results := results
  content_nil := rfl
  content_append _ _ _ := rfl
  ready_finish returned remaining result ready := by simp [allOf] at ready
  resumes returned remaining result := by simp [allOf]
  ready_take _ _ := rfl
  settled results remaining result ready := by simp [allOf] at ready
  ready_zero _ := rfl

/-! ### The invariant -/

/-- While the increments are not split, `remaining` counts the awaitables that run, and the coroutine
was let go on exactly when it has awaited and the shared state is ready. -/
structure Sound {combinator : Combinator R Store Out} (lawful : Lawful combinator) (count : ℕ)
    (result : ℕ → R) (world : World Store Out) : Prop where
  started : world.started ≤ count
  distinct : world.completed.Nodup
  known : ∀ index ∈ world.completed, index < world.started
  remaining : world.shared.remaining + world.completed.length = world.started
  loaded : ∀ value, world.position = .loaded value →
    value = world.shared.remaining ∧ world.started < count
  before : world.position ≠ .awaiting →
    world.shared.suspendedHandle = false ∧ world.continuations = 0
  added : world.position = .checked ∨ world.position = .awaiting → world.started = count
  handle : world.position = .awaiting → world.shared.suspendedHandle = false →
    combinator.ready world.shared.returned world.shared.remaining = true
  continuations : world.position = .awaiting → world.continuations =
    if combinator.ready world.shared.returned world.shared.remaining then 1 else 0
  results : world.results.length ≤ world.continuations
  agrees : combinator.ready world.shared.returned world.shared.remaining =
    combinator.ready (lawful.content (world.completed.map result)) world.shared.remaining
  untaken : world.results = [] → world.shared.returned = lawful.content (world.completed.map result)
  taken : ∀ out ∈ world.results,
    out = (combinator.take (lawful.content (world.completed.map result))).2
  discarded : world.discarded ≠ [] → world.results ≠ []

namespace Sound

variable {combinator : Combinator R Store Out} {lawful : Lawful combinator} {count : ℕ}
  {result : ℕ → R} {world : World Store Out}

theorem start (lawful : Lawful combinator) (count : ℕ) (result : ℕ → R) :
    Sound lawful count result combinator.start where
  started := Nat.zero_le _
  distinct := List.nodup_nil
  known _ member := nomatch member
  remaining := rfl
  loaded _ impossible := nomatch impossible
  before _ := ⟨rfl, rfl⟩
  added impossible := by
    rcases impossible with impossible | impossible
    · cases impossible
    · cases impossible
  handle impossible := nomatch impossible
  continuations impossible := nomatch impossible
  results := Nat.le_refl _
  agrees := by
    show combinator.ready combinator.empty 0 = combinator.ready (lawful.content []) 0
    rw [lawful.content_nil]
  untaken _ := lawful.content_nil.symm
  taken _ member := nomatch member
  discarded impossible := absurd rfl impossible

/-- An awaitable that runs is one of those `remaining` counts. -/
theorem remaining_pos (sound : Sound lawful count result world) {index : ℕ}
    (running : world.running index = true) :
    index < world.started ∧ index ∉ world.completed ∧ 0 < world.shared.remaining := by
  simp only [World.running, Bool.and_eq_true, decide_eq_true_eq, Bool.not_eq_true',
    List.contains_eq_mem, decide_eq_false_iff_not] at running
  obtain ⟨⟨within, fresh⟩, -⟩ := running
  refine ⟨within, fresh, ?_⟩
  have all : (index :: world.completed) ⊆ List.range world.started := by
    intro other member
    rcases List.mem_cons.mp member with rfl | before
    · exact List.mem_range.mpr within
    · exact List.mem_range.mpr (sound.known other before)
  have fewer := ((List.nodup_cons.mpr ⟨fresh, sound.distinct⟩).subperm all).length_le
  rw [List.length_cons, List.length_range] at fewer
  have counted := sound.remaining
  omega

theorem ready_of_continued (sound : Sound lawful count result world)
    (continued : world.continuations ≠ 0) :
    world.position = .awaiting ∧
      combinator.ready world.shared.returned world.shared.remaining = true := by
  have awaiting : world.position = .awaiting := by
    by_contra elsewhere
    exact continued (sound.before elsewhere).2
  refine ⟨awaiting, ?_⟩
  by_contra notReady
  rw [sound.continuations awaiting, if_neg notReady] at continued
  exact continued rfl

theorem results_eq_nil (sound : Sound lawful count result world)
    (waiting : world.continuations = 0) : world.results = [] := by
  have few := sound.results
  rw [waiting] at few
  exact List.eq_nil_of_length_eq_zero (Nat.le_zero.mp few)

theorem ready_of_taken (sound : Sound lawful count result world) (taken : world.results ≠ []) :
    combinator.ready world.shared.returned world.shared.remaining = true :=
  (sound.ready_of_continued fun waiting => taken (sound.results_eq_nil waiting)).2

theorem handle_of_unready (sound : Sound lawful count result world)
    (awaiting : world.position = .awaiting)
    (unready : combinator.ready world.shared.returned world.shared.remaining = false) :
    world.shared.suspendedHandle = true := by
  by_contra unset
  have ready := sound.handle awaiting (Bool.not_eq_true _ ▸ unset)
  rw [unready] at ready
  cases ready

theorem content_ready_of_taken (sound : Sound lawful count result world)
    (taken : world.results ≠ []) :
    combinator.ready (lawful.content (world.completed.map result)) world.shared.remaining = true :=
  sound.agrees ▸ sound.ready_of_taken taken

theorem load {next : World Store Out} (sound : Sound lawful count result world)
    (stepped : combinator.step count result world .load = some next) :
    Sound lawful count result next := by
  simp only [Combinator.step, Option.ite_none_right_eq_some, Option.some.injEq] at stepped
  obtain ⟨⟨adding, within⟩, rfl⟩ := stepped
  have before := sound.before (by rw [adding]; exact Position.noConfusion)
  exact {
    sound with
    loaded := fun value same => ⟨(Position.loaded.inj same).symm, within⟩
    before := fun _ => before
    added := fun impossible => by
      rcases impossible with impossible | impossible
      · cases impossible
      · cases impossible
    handle := fun impossible => nomatch impossible
    continuations := fun impossible => nomatch impossible }

theorem store {next : World Store Out} (sound : Sound lawful count result world)
    (stepped : combinator.step count result world .store = some next) :
    Sound lawful count result next := by
  cases position : world.position with
  | loaded value =>
    simp only [Combinator.step, position, Option.some.injEq] at stepped
    subst stepped
    obtain ⟨rfl, within⟩ := sound.loaded value position
    have before := sound.before (by rw [position]; exact Position.noConfusion)
    have stored := sound.untaken (sound.results_eq_nil before.2)
    exact {
      sound with
      started := within
      known := fun index member => Nat.lt_succ_of_lt (sound.known index member)
      remaining := by
        have counted := sound.remaining
        show world.shared.remaining + 1 + world.completed.length = world.started + 1
        omega
      loaded := fun value impossible => nomatch impossible
      before := fun _ => before
      added := fun impossible => by
        rcases impossible with impossible | impossible
        · cases impossible
        · cases impossible
      handle := fun impossible => nomatch impossible
      continuations := fun impossible => nomatch impossible
      agrees := by rw [stored] }
  | adding => simp [Combinator.step, position] at stepped
  | checked => simp [Combinator.step, position] at stepped
  | awaiting => simp [Combinator.step, position] at stepped

theorem complete {next : World Store Out} {index : ℕ} (sound : Sound lawful count result world)
    (unsplit : ∀ value, world.position ≠ .loaded value)
    (stepped : combinator.step count result world (.complete index) = some next) :
    Sound lawful count result next := by
  simp only [Combinator.step, Option.ite_none_right_eq_some, Option.some.injEq] at stepped
  obtain ⟨running, rfl⟩ := stepped
  obtain ⟨within, fresh, positive⟩ := sound.remaining_pos running
  obtain ⟨left, counted⟩ := Nat.exists_eq_add_of_lt positive
  rw [Nat.zero_add] at counted
  have content := lawful.content_append (world.completed.map result) left (result index)
  have finished := lawful.ready_finish world.shared.returned left (result index)
  have resumes := lawful.resumes world.shared.returned left (result index)
  have taking : world.results ≠ [] →
      combinator.ready world.shared.returned (left + 1) = true ∧
        combinator.ready (lawful.content (world.completed.map result)) (left + 1) = true := by
    rw [← counted]
    exact fun some_ => ⟨sound.ready_of_taken some_, sound.content_ready_of_taken some_⟩
  have total := sound.remaining
  simp only [counted, Nat.add_sub_cancel]
  exact {
    started := sound.started
    distinct := List.nodup_append'.mpr ⟨sound.distinct, List.nodup_singleton _,
      fun other before now => fresh (List.mem_singleton.mp now ▸ before)⟩
    known := List.forall_mem_append.mpr ⟨sound.known, List.forall_mem_singleton.mpr within⟩
    remaining := by
      show left + (world.completed ++ [index]).length = world.started
      rw [List.length_append, List.length_singleton]
      omega
    loaded := fun value same => absurd same (unsplit value)
    before := fun elsewhere => by
      obtain ⟨handle, none_⟩ := sound.before elsewhere
      exact ⟨handle, by simp [handle, none_]⟩
    added := sound.added
    handle := fun awaiting handle => by
      have ready := sound.handle awaiting handle
      rw [counted] at ready
      exact finished ready
    continuations := fun awaiting => by
      have before := sound.continuations awaiting
      rw [counted] at before
      show world.continuations + _ = _
      rw [before, resumes]
      cases ready : combinator.ready world.shared.returned (left + 1) with
      | true => simp [finished ready]
      | false =>
        have handle := sound.handle_of_unready awaiting (counted ▸ ready)
        simp [handle]
    results := Nat.le_trans sound.results (Nat.le_add_right _ _)
    agrees := by
      show _ = combinator.ready (lawful.content ((world.completed ++ [index]).map result)) left
      rw [List.map_append, List.map_singleton, ← content]
      by_cases some_ : world.results = []
      · rw [sound.untaken some_]
      · obtain ⟨ready, contentReady⟩ := taking some_
        have other := lawful.ready_finish (lawful.content (world.completed.map result)) left
          (result index) contentReady
        exact (finished ready).trans other.symm
    untaken := fun none_ => by
      show (combinator.finish world.shared.returned left (result index)).1 = _
      rw [sound.untaken none_, content, List.map_append, List.map_singleton]
    taken := fun out member => by
      have ready := (taking (List.ne_nil_of_mem member)).2
      rw [List.map_append, List.map_singleton, lawful.settled _ left _ ready]
      exact sound.taken out member
    discarded := sound.discarded }

theorem discard {next : World Store Out} {index : ℕ} (sound : Sound lawful count result world)
    (stepped : combinator.step count result world (.discard index) = some next) :
    Sound lawful count result next := by
  simp only [Combinator.step, Option.ite_none_right_eq_some, Option.some.injEq, Bool.and_eq_true,
    Bool.not_eq_true', List.isEmpty_eq_false_iff] at stepped
  obtain ⟨⟨-, some_⟩, rfl⟩ := stepped
  exact { sound with discarded := fun _ => some_ }

theorem awaitReady {next : World Store Out} (sound : Sound lawful count result world)
    (stepped : combinator.step count result world .awaitReady = some next) :
    Sound lawful count result next := by
  simp only [Combinator.step, Option.ite_none_right_eq_some] at stepped
  obtain ⟨⟨adding, all⟩, stepped⟩ := stepped
  obtain ⟨handle, none_⟩ := sound.before (by rw [adding]; exact Position.noConfusion)
  split at stepped
  · rename_i ready
    cases stepped
    exact {
      sound with
      loaded := fun value impossible => nomatch impossible
      before := fun elsewhere => absurd rfl elsewhere
      added := fun _ => all
      handle := fun _ _ => ready
      continuations := fun _ => by
        show world.continuations + 1 = _
        rw [none_, if_pos ready]
      results := Nat.le_succ_of_le sound.results }
  · cases stepped
    exact {
      sound with
      loaded := fun value impossible => nomatch impossible
      before := fun _ => ⟨handle, none_⟩
      added := fun _ => all
      handle := fun impossible => nomatch impossible
      continuations := fun impossible => nomatch impossible }

theorem awaitSuspend {next : World Store Out} (sound : Sound lawful count result world)
    (stepped : combinator.step count result world .awaitSuspend = some next) :
    Sound lawful count result next := by
  simp only [Combinator.step, Option.ite_none_right_eq_some, Option.some.injEq] at stepped
  obtain ⟨checked, rfl⟩ := stepped
  obtain ⟨-, none_⟩ := sound.before (by rw [checked]; exact Position.noConfusion)
  exact {
    sound with
    loaded := fun value impossible => nomatch impossible
    before := fun elsewhere => absurd rfl elsewhere
    added := fun _ => sound.added (.inl checked)
    handle := fun _ impossible => nomatch impossible
    continuations := fun _ => by
      show world.continuations + _ = _
      rw [none_, Nat.zero_add]
    results := Nat.le_trans sound.results (Nat.le_add_right _ _) }

theorem awaitResume {next : World Store Out} (sound : Sound lawful count result world)
    (stepped : combinator.step count result world .awaitResume = some next) :
    Sound lawful count result next := by
  simp only [Combinator.step, Option.ite_none_right_eq_some, Option.some.injEq] at stepped
  obtain ⟨pending, rfl⟩ := stepped
  obtain ⟨awaiting, ready⟩ := sound.ready_of_continued (Nat.ne_of_gt (Nat.zero_lt_of_lt pending))
  have once := sound.continuations awaiting
  rw [if_pos ready] at once
  -- the one continuation is still to be taken
  have untaken : world.results = [] := by
    rw [once] at pending
    exact List.eq_nil_of_length_eq_zero (Nat.lt_one_iff.mp pending)
  have stored := sound.untaken untaken
  have kept := lawful.ready_take world.shared.returned world.shared.remaining
  exact {
    sound with
    handle := fun _ _ => kept.trans ready
    continuations := fun _ => by
      show world.continuations = _
      rw [once, if_pos (kept.trans ready)]
    results := by
      show (world.results ++ [_]).length ≤ world.continuations
      rw [List.length_append, List.length_singleton]
      exact pending
    agrees := kept.trans sound.agrees
    untaken := fun impossible => absurd impossible (by simp)
    taken := fun out member => by
      simp only [untaken, List.nil_append, List.mem_singleton] at member
      rw [member, stored]
    discarded := fun _ => by simp }

/-- Every step with which no increment is split keeps the invariant. -/
theorem step (sound : Sound lawful count result world) {taken : Step}
    (unsplit : Unsplit world taken) {next : World Store Out}
    (stepped : combinator.step count result world taken = some next) :
    Sound lawful count result next := by
  cases taken with
  | load => exact sound.load stepped
  | store => exact sound.store stepped
  | complete index => exact sound.complete unsplit stepped
  | discard index => exact sound.discard stepped
  | awaitReady => exact sound.awaitReady stepped
  | awaitSuspend => exact sound.awaitSuspend stepped
  | awaitResume => exact sound.awaitResume stepped

theorem continuations_ne_zero (sound : Sound lawful count result world) {out : Out}
    (member : out ∈ world.results) : world.continuations ≠ 0 :=
  fun waiting => List.ne_nil_of_mem member (sound.results_eq_nil waiting)

theorem continuations_le (sound : Sound lawful count result world) : world.continuations ≤ 1 := by
  by_cases awaiting : world.position = .awaiting
  · rw [sound.continuations awaiting]
    split
    · exact Nat.le_refl 1
    · exact Nat.zero_le 1
  · rw [(sound.before awaiting).2]
    exact Nat.zero_le 1

theorem perm_of_remaining_zero (sound : Sound lawful count result world)
    (all : world.started = count) (none_ : world.shared.remaining = 0) :
    world.completed.Perm (List.range count) := by
  have length := sound.remaining
  rw [none_, all, Nat.zero_add] at length
  have within : world.completed ⊆ List.range count := fun index member =>
    List.mem_range.mpr (all ▸ sound.known index member)
  refine (sound.distinct.subperm within).perm_of_length_le ?_
  rw [List.length_range, length]

theorem continued_of_over (sound : Sound lawful count result world) (over_ : Over count world) :
    world.continuations = 1 := by
  obtain ⟨awaiting, completed⟩ := over_
  have all := sound.added (.inr awaiting)
  by_cases gone : world.discarded = []
  · have remaining : world.shared.remaining = 0 := by
      have every : List.range count ⊆ world.completed := fun index member =>
        (completed index (List.mem_range.mp member)).resolve_right (by rw [gone]; exact List.not_mem_nil)
      have most := (List.nodup_range.subperm every).length_le
      have counted := sound.remaining
      rw [List.length_range] at most
      omega
    rw [sound.continuations awaiting, remaining, lawful.ready_zero, if_pos rfl]
  · have some_ := sound.discarded gone
    have few := sound.results
    have atMost := sound.continuations_le
    have positive := List.length_pos_iff.mpr some_
    omega

end Sound

/-- After every run without a split increment, the invariant holds. -/
theorem run_sound {combinator : Combinator R Store Out} (lawful : Lawful combinator) (count : ℕ)
    (result : ℕ → R) {steps : List Step} {world : World Store Out}
    (unsplit : Along (combinator.step count result) Unsplit combinator.start steps)
    (ran : run (combinator.step count result) combinator.start steps = some world) :
    Sound lawful count result world :=
  run_invariant_along (fun _ _ _ sound meets stepped => sound.step meets stepped)
    (Sound.start lawful count result) unsplit ran

/-! ### The two combinators -/

/-- The coroutine does not go on twice, it goes on when everything has completed, and it takes a
result no more often than it goes on. -/
structure ContinuesOnce (count : ℕ) (world : World Store Out) : Prop where
  atMostOnce : world.continuations ≤ 1
  over_ : Over count world → world.continuations = 1
  results : world.results.length ≤ world.continuations

theorem Sound.continuesOnce {combinator : Combinator R Store Out} {lawful : Lawful combinator}
    {count : ℕ} {result : ℕ → R} {world : World Store Out}
    (sound : Sound lawful count result world) : ContinuesOnce count world :=
  ⟨sound.continuations_le, sound.continued_of_over, sound.results⟩

section AnyOfCond

variable {checkCond : Option (R → Bool)} {movedFrom : R → R} {count : ℕ} {result : ℕ → R}
  {world : World (Option R) (Option R)}

/-- A result that satisfies the condition lets the coroutine go on. -/
theorem anyOfCond_continues
    (sound : Sound (anyOfCond_lawful checkCond movedFrom) count result world)
    (awaiting : world.position = .awaiting)
    (satisfied : ∃ index ∈ world.completed, holds checkCond (result index) = true) :
    world.continuations = 1 := by
  obtain ⟨index, member, satisfied⟩ := satisfied
  have found : ((world.completed.map result).find? (holds checkCond)).isSome = true :=
    List.find?_isSome.mpr ⟨result index, List.mem_map_of_mem member, satisfied⟩
  have ready : (anyOfCond checkCond movedFrom).ready world.shared.returned
      world.shared.remaining = true := by
    rw [sound.agrees]
    exact Bool.or_eq_true_iff.mpr (.inl found)
  rw [sound.continuations awaiting, if_pos ready]

/-- Without a result that satisfies the condition, the coroutine goes on when all have completed. -/
theorem anyOfCond_completed
    (sound : Sound (anyOfCond_lawful checkCond movedFrom) count result world)
    (continued : world.continuations ≠ 0)
    (nothing : (world.completed.map result).find? (holds checkCond) = none) :
    world.completed.Perm (List.range count) := by
  obtain ⟨awaiting, ready⟩ := sound.ready_of_continued continued
  rw [sound.agrees] at ready
  have either : (((world.completed.map result).find? (holds checkCond)).isSome ||
      world.shared.remaining == 0) = true := ready
  rw [nothing] at either
  exact sound.perm_of_remaining_zero (sound.added (.inr awaiting)) (beq_iff_eq.mp either)

/-- What is taken is the first result that satisfies the condition, or nothing if there is none. -/
theorem anyOfCond_result
    (sound : Sound (anyOfCond_lawful checkCond movedFrom) count result world) {out : Option R}
    (member : out ∈ world.results) :
    out = (world.completed.map result).find? (holds checkCond) ∧
      (out = none ↔ world.completed.Perm (List.range count) ∧
        ∀ index < count, holds checkCond (result index) = false) := by
  have found : out = (world.completed.map result).find? (holds checkCond) :=
    sound.taken out member
  refine ⟨found, ?_⟩
  rw [found]
  constructor
  · intro nothing
    have every := anyOfCond_completed sound (sound.continuations_ne_zero member) nothing
    refine ⟨every, fun index within => ?_⟩
    have completed := every.mem_iff.mpr (List.mem_range.mpr within)
    exact Bool.eq_false_iff.mpr (List.find?_eq_none.mp nothing _ (List.mem_map_of_mem completed))
  · rintro ⟨every, unsatisfied⟩
    refine List.find?_eq_none.mpr fun value isResult => ?_
    obtain ⟨index, completed, rfl⟩ := List.mem_map.mp isResult
    rw [unsatisfied index (List.mem_range.mp (every.mem_iff.mp completed))]
    exact Bool.false_ne_true

end AnyOfCond

/-- `all_of` goes on when all have completed. -/
theorem allOf_completed {count : ℕ} {result : ℕ → R} {world : World (List R) (List R)}
    (sound : Sound allOf_lawful count result world) (continued : world.continuations ≠ 0) :
    world.completed.Perm (List.range count) := by
  obtain ⟨awaiting, ready⟩ := sound.ready_of_continued continued
  exact sound.perm_of_remaining_zero (sound.added (.inr awaiting)) (beq_iff_eq.mp ready)

/-- In every run of `any_of_cond` and of `all_of` in which no completion takes the lock within a
`remaining++`, the coroutine goes on once. `any_of_cond` goes on as soon as a result satisfies the
condition, and returns the first such result in the order of the lock, or nothing exactly when all
awaitables have completed without one. `all_of` goes on only when all awaitables have completed, and
returns their results in some order. -/
theorem parallel_continues_once (count : ℕ) (result : ℕ → R) (checkCond : Option (R → Bool))
    (movedFrom : R → R) (steps : List Step) :
    (∀ world, Along ((anyOfCond checkCond movedFrom).step count result) Unsplit
        (anyOfCond checkCond movedFrom).start steps →
      run ((anyOfCond checkCond movedFrom).step count result)
        (anyOfCond checkCond movedFrom).start steps = some world →
      ContinuesOnce count world ∧
      (world.position = .awaiting →
        (∃ index ∈ world.completed, holds checkCond (result index) = true) →
        world.continuations = 1) ∧
      ∀ out ∈ world.results,
        out = (world.completed.map result).find? (holds checkCond) ∧
        (out = none ↔ world.completed.Perm (List.range count) ∧
          ∀ index < count, holds checkCond (result index) = false)) ∧
    (∀ world, Along ((allOf : Combinator R _ _).step count result) Unsplit allOf.start steps →
      run ((allOf : Combinator R _ _).step count result) allOf.start steps = some world →
      ContinuesOnce count world ∧
      (world.continuations ≠ 0 → world.completed.Perm (List.range count)) ∧
      ∀ out ∈ world.results, out.Perm ((List.range count).map result)) := by
  refine ⟨fun world unsplit ran => ?_, fun world unsplit ran => ?_⟩
  · have sound := run_sound (anyOfCond_lawful checkCond movedFrom) count result unsplit ran
    exact ⟨sound.continuesOnce, anyOfCond_continues sound,
      fun out member => anyOfCond_result sound member⟩
  · have sound := run_sound allOf_lawful count result unsplit ran
    refine ⟨sound.continuesOnce, allOf_completed sound, fun out member => ?_⟩
    have taken : out = world.completed.map result := sound.taken out member
    rw [taken]
    exact (allOf_completed sound (sound.continuations_ne_zero member)).map result

/-- The first awaitable completes on another thread while the second one is added. -/
def splitIncrement : List Step :=
  [.load, .store, .load, .complete 0, .store, .awaitReady, .awaitSuspend, .complete 1]

/-- Then the decrement is lost: both awaitables have completed, the coroutine has awaited, and it is
never resumed, with `all_of` and with an `any_of_cond` whose condition no result satisfies. -/
theorem splitIncrement_neverContinues :
    (∃ world, run ((allOf : Combinator ℕ _ _).step 2 id) allOf.start splitIncrement = some world ∧
      Over 2 world ∧ world.continuations = 0) ∧
    ∃ world, run ((anyOfCond (some fun _ => false) id).step 2 (id : ℕ → ℕ))
        (anyOfCond (some fun _ => false) id).start splitIncrement = some world ∧
      Over 2 world ∧ world.continuations = 0 := by
  refine ⟨⟨_, rfl, ⟨rfl, ?_⟩, rfl⟩, ⟨_, rfl, ⟨rfl, ?_⟩, rfl⟩⟩
  · decide
  · decide

/-- The same awaitables with the first completion after the increment. -/
def unsplitIncrement : List Step :=
  [.load, .store, .load, .store, .complete 0, .awaitReady, .awaitSuspend, .complete 1, .awaitResume]

theorem parallel_continues_once_unsplit :
    ∃ world, run ((allOf : Combinator ℕ _ _).step 2 id) allOf.start unsplitIncrement = some world ∧
      world.continuations = 1 ∧ ∀ out ∈ world.results, out.Perm ((List.range 2).map id) := by
  have unsplit : Along ((allOf : Combinator ℕ _ _).step 2 id) Unsplit allOf.start
      unsplitIncrement := by
    refine .cons rfl trivial (.cons rfl trivial (.cons rfl trivial (.cons rfl trivial ?_)))
    refine .cons rfl (fun _ impossible => nomatch impossible) ?_
    refine .cons rfl trivial (.cons rfl trivial ?_)
    exact .cons rfl (fun _ impossible => nomatch impossible) (.cons rfl trivial trivial)
  obtain ⟨once, -, results⟩ :=
    (parallel_continues_once 2 id none id unsplitIncrement).2 _ unsplit rfl
  exact ⟨_, rfl, once.over_ ⟨rfl, by decide⟩, results⟩

end NativeLibs.Parallel
