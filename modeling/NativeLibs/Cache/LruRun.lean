/-
This file runs `LruCache` and a bounded recency list side by side. A call of the
public interface is given to both; the cache follows its iterators, the recency
list moves its entries. What a caller can observe is recorded: results, values
behind accessors, sizes, the entries an iteration visits, and the keys that were
evicted.

An accessor is good for `make_lru` from the `get` that returned it until the
next call that changes the map, so a call carries the last accessor along and
drops it when an iterator may have been invalidated. The last result, on caches
of any capacity, lets the caller hold any accessor whose entry is still there.
-/

import NativeLibs.Cache.Lru

namespace NativeLibs.Cache

open Library

variable {Key Value : Type} [DecidableEq Key]

/-! ### Calls -/

/-- The public operations of `LruCache`. -/
inductive Call (Key Value : Type) where
  | insert (k : Key) (v : Value)
  | get (k : Key)
  | makeLru
  | erase (k : Key)
  | clear
  | setCapacity (maxSize : ℕ)
  | size
  | maxSize
  | iterateValues (f : Key → Value → Bool)

/-- What is observed of a call. -/
inductive Observation (Key Value : Type) where
  | inserted (isNew : Bool) (evicted : List Key)
  | got (value : Option Value)
  | evicted (keys : List Key)
  | count (number : ℕ)
  | visited (entries : List (Key × Value))
  | nothing
  deriving DecidableEq

/-- A state with the accessor of the last `get`, if it may still be used, and what was observed. -/
structure World (State Key Value : Type) where
  state : State
  accessor : Option Key := none
  observed : List (Observation Key Value) := []

/-- One call, for a state that says what a call does to it and to the accessor. -/
def worldStep {State : Type}
    (perform : State → Option Key → Call Key Value →
      Option (State × Option Key × Observation Key Value))
    (world : World State Key Value) (call : Call Key Value) : Option (World State Key Value) :=
  (perform world.state world.accessor call).map fun outcome =>
    ⟨outcome.1, outcome.2.1, world.observed ++ [outcome.2.2]⟩

/-- A call on the cache. -/
def LruCache.perform (cache : LruCache Key Value) (accessor : Option Key) :
    Call Key Value → Option (LruCache Key Value × Option Key × Observation Key Value)
  | .insert k v => do
    let (next, isNew, evicted) ← cache.insert k v
    return (next, none, .inserted isNew evicted)
  | .get k => do
    let (next, found) ← cache.get k
    match found with
    | none => return (next, none, .got none)
    | some key =>
      let value ← next.read key
      return (next, some key, .got (some value))
  | .makeLru => do
    let next ← cache.makeLru accessor
    return (next, accessor, .nothing)
  | .erase k => do
    let next ← cache.erase k
    return (next, none, .nothing)
  | .clear => some (cache.clear, none, .nothing)
  | .setCapacity maxSize => do
    let (next, keys) ← cache.setCapacity maxSize
    return (next, none, .evicted keys)
  | .size => some (cache, accessor, .count cache.size)
  | .maxSize => some (cache, accessor, .count cache.maxSize)
  | .iterateValues f =>
    some (cache, accessor, .visited (LruCache.iterateValues f cache.keyValues.values))

/-- The same call on a recency list. -/
def performRecency (recency : Recency Key Value) (accessor : Option Key) :
    Call Key Value → Option (Recency Key Value × Option Key × Observation Key Value)
  | .insert k v =>
    some (recency.insert k v, none, .inserted (decide (k ∉ recency.keys)) (recency.evictedBy k))
  | .get k =>
    match recency.find k with
    | none => some (recency, none, .got none)
    | some value => some (recency.insert k value, some k, .got (some value))
  | .makeLru => do
    let key ← accessor
    let next ← recency.demote key
    return (next, accessor, .nothing)
  | .erase k => some (recency.remove k, none, .nothing)
  | .clear => some (recency.clear, none, .nothing)
  | .setCapacity maxSize =>
    if positive : 0 < maxSize then
      some (recency.setCapacity maxSize positive, none, .evicted (recency.evictedAt maxSize))
    else none
  | .size => some (recency, accessor, .count recency.entries.length)
  | .maxSize => some (recency, accessor, .count recency.capacity)
  | .iterateValues f => some (recency, accessor, .visited (LruCache.iterateValues f recency.entries))

/-- `make_lru` takes an accessor a `get` has just returned, and no capacity is set to 0. -/
def Allowed {State : Type} (world : World State Key Value) : Call Key Value → Prop
  | .makeLru => world.accessor.isSome = true
  | .setCapacity maxSize => 0 < maxSize
  | _ => True

/-! ### Side by side -/

/-- The cache stands for the recency list, and an accessor is for a key that is there. -/
structure Follows (cache : LruCache Key Value) (recency : Recency Key Value)
    (accessor : Option Key) : Prop where
  refines : cache.Refines recency
  usable : ∀ key, accessor = some key → key ∈ recency.keys

theorem follows_none {cache : LruCache Key Value} {recency : Recency Key Value}
    (refines : cache.Refines recency) : Follows cache recency none :=
  ⟨refines, fun _ impossible => nomatch impossible⟩

/-- `get` returns the value of the key and moves it to the front, or leaves everything. -/
theorem get_follows {cache : LruCache Key Value} {recency : Recency Key Value}
    (refines : cache.Refines recency) (accessor : Option Key) (k : Key) :
    ∃ next nextRecency nextAccessor observation,
      cache.perform accessor (.get k) = some (next, nextAccessor, observation) ∧
      performRecency recency accessor (.get k) = some (nextRecency, nextAccessor, observation) ∧
      Follows next nextRecency nextAccessor := by
  cases found : recency.find k with
  | none =>
    have missed := LruCache.get_of_notMem refines k ((recency.find_eq_none_iff k).mp found)
    refine ⟨cache, recency, none, .got none, ?_, ?_, follows_none refines⟩
    · simp only [LruCache.perform, missed, Option.bind_eq_bind, Option.bind_some]
      rfl
    · simp only [performRecency, found]
  | some value =>
    obtain ⟨next, performed, nextRefines⟩ := LruCache.get_refines refines k value found
    have first : (k, value) ∈ (recency.insert k value).entries := List.mem_cons_self
    have reads := LruCache.read_refines nextRefines k value
      (((recency.insert k value).find_eq_some_iff k value).mpr first)
    refine ⟨next, recency.insert k value, some k, .got (some value), ?_, ?_, nextRefines, ?_⟩
    · simp only [LruCache.perform, performed, reads, Option.bind_eq_bind, Option.bind_some]
      rfl
    · simp only [performRecency, found]
    · rintro _ ⟨⟩
      exact List.mem_map.mpr ⟨_, first, rfl⟩

/-- `make_lru` moves the key of the accessor to the back, and the accessor stays usable. -/
theorem makeLru_follows {cache : LruCache Key Value} {recency : Recency Key Value} {key : Key}
    (follows : Follows cache recency (some key)) :
    ∃ next nextRecency,
      cache.perform (some key) .makeLru = some (next, some key, .nothing) ∧
      performRecency recency (some key) .makeLru = some (nextRecency, some key, .nothing) ∧
      Follows next nextRecency (some key) := by
  have member := follows.usable key rfl
  obtain ⟨value, found⟩ := recency.find_of_mem_keys key member
  obtain ⟨next, demoted, performed, demotes, nextRefines, sameKeys⟩ :=
    LruCache.makeLru_refines follows.refines key value found
  refine ⟨next, demoted, ?_, ?_, nextRefines, ?_⟩
  · simp only [LruCache.perform, performed, Option.bind_eq_bind, Option.bind_some]
    rfl
  · simp only [performRecency, demotes, Option.bind_eq_bind, Option.bind_some]
    rfl
  · rintro _ ⟨⟩
    exact (sameKeys key).mpr member

/-- A call does the same to both, and the same is observed. -/
theorem perform_follows (world : World (LruCache Key Value) Key Value) (call : Call Key Value)
    (allowed : Allowed world call) {recency : Recency Key Value}
    (follows : Follows world.state recency world.accessor) :
    ∃ next nextRecency accessor observation,
      world.state.perform world.accessor call = some (next, accessor, observation) ∧
      performRecency recency world.accessor call = some (nextRecency, accessor, observation) ∧
      Follows next nextRecency accessor := by
  obtain ⟨refines, usable⟩ := follows
  cases call with
  | insert k v =>
    obtain ⟨next, performed, nextRefines⟩ := LruCache.insert_refines refines k v
    refine ⟨next, _, none, _, ?_, rfl, follows_none nextRefines⟩
    simp only [LruCache.perform, performed, Option.bind_eq_bind, Option.bind_some]
    rfl
  | get k => exact get_follows refines world.accessor k
  | makeLru =>
    obtain ⟨key, held⟩ := Option.isSome_iff_exists.mp allowed
    rw [held] at usable ⊢
    obtain ⟨next, demoted, performed, demotes, nextFollows⟩ := makeLru_follows ⟨refines, usable⟩
    exact ⟨next, demoted, some key, .nothing, performed, demotes, nextFollows⟩
  | erase k =>
    obtain ⟨next, performed, nextRefines⟩ := LruCache.erase_refines refines k
    refine ⟨next, _, none, _, ?_, rfl, follows_none nextRefines⟩
    simp only [LruCache.perform, performed, Option.bind_eq_bind, Option.bind_some]
    rfl
  | clear =>
    exact ⟨_, _, none, _, rfl, rfl, follows_none (LruCache.clear_refines refines)⟩
  | setCapacity maxSize =>
    obtain ⟨next, performed, nextRefines⟩ := LruCache.setCapacity_refines refines maxSize allowed
    refine ⟨next, _, none, .evicted (recency.evictedAt maxSize), ?_, dif_pos allowed,
      follows_none nextRefines⟩
    simp only [LruCache.perform, performed, Option.bind_eq_bind, Option.bind_some]
    rfl
  | size =>
    refine ⟨world.state, recency, world.accessor, .count recency.entries.length, ?_, rfl, refines,
      usable⟩
    rw [LruCache.perform, refines.size_eq]
  | maxSize =>
    refine ⟨world.state, recency, world.accessor, .count recency.capacity, ?_, rfl, refines,
      usable⟩
    rw [LruCache.perform, LruCache.maxSize, refines.capacity]
  | iterateValues f =>
    refine ⟨world.state, recency, world.accessor, _, ?_, rfl, refines, usable⟩
    rw [LruCache.perform, refines.entries]

/-! ### Whole runs -/

/-- Two worlds in which the same was observed, the cache of one standing for the list of the
other. -/
structure Beside (world : World (LruCache Key Value) Key Value)
    (reference : World (Recency Key Value) Key Value) : Prop where
  follows : Follows world.state reference.state world.accessor
  accessor : world.accessor = reference.accessor
  observed : world.observed = reference.observed

theorem worldStep_beside (world : World (LruCache Key Value) Key Value)
    (reference : World (Recency Key Value) Key Value) (call : Call Key Value)
    (beside : Beside world reference) (allowed : Allowed world call) :
    ∃ next nextReference, worldStep LruCache.perform world call = some next ∧
      worldStep performRecency reference call = some nextReference ∧
      Beside next nextReference := by
  obtain ⟨cache, recency, accessor, observation, performed, followed, follows⟩ :=
    perform_follows world call allowed beside.follows
  refine ⟨⟨cache, accessor, world.observed ++ [observation]⟩,
    ⟨recency, accessor, reference.observed ++ [observation]⟩, ?_, ?_, follows, rfl, ?_⟩
  · rw [worldStep, performed, Option.map_some]
  · rw [worldStep, ← beside.accessor, followed, Option.map_some]
  · rw [beside.observed]

/-- For every sequence of calls on a new cache with a positive capacity, `make_lru` with an
accessor just returned and no capacity set to 0: every call returns; what was observed, evicted
keys included, is what a recency list shows; its entries are those of the nodes in order; the map
points each key to its node; and the size stays within the capacity. -/
theorem lruCache_refines_recency (capacity : ℕ) (positive : 0 < capacity)
    (calls : List (Call Key Value))
    (allowed : Along (worldStep LruCache.perform) Allowed ⟨LruCache.new capacity, none, []⟩
      calls) :
    ∃ world reference,
      run (worldStep LruCache.perform) ⟨LruCache.new capacity, none, []⟩ calls = some world ∧
      run (worldStep performRecency) ⟨Recency.new capacity positive, none, []⟩ calls =
        some reference ∧
      world.observed = reference.observed ∧
      world.state.keyValues.values = reference.state.entries ∧
      Indexed Prod.fst world.state.keyValues world.state.mappedValues ∧
      world.state.size ≤ world.state.maxSize := by
  have start : Beside (⟨LruCache.new capacity, none, []⟩ : World (LruCache Key Value) Key Value)
      ⟨Recency.new capacity positive, none, []⟩ :=
    ⟨follows_none ⟨rfl, rfl, Indexed.nil rfl⟩, rfl, rfl⟩
  obtain ⟨world, reference, reached, followed, beside⟩ :=
    run_simulation worldStep_beside start allowed
  obtain ⟨refines, -⟩ := beside.follows
  refine ⟨world, reference, reached, followed, beside.observed, refines.entries, refines.indexed,
    ?_⟩
  rw [refines.size_eq, LruCache.maxSize, refines.capacity]
  exact reference.state.fits

/-- A cache for two entries evicts the one that was made least recently used. -/
theorem lruCache_refines_recency_two :
    ∃ world : World (LruCache ℕ ℕ) ℕ ℕ,
      run (worldStep LruCache.perform) ⟨LruCache.new 2, none, []⟩
        [.insert 1 10, .insert 2 20, .get 2, .makeLru, .insert 3 30, .get 1] = some world ∧
      world.observed = [.inserted true [], .inserted true [], .got (some 20), .nothing,
        .inserted true [2], .got (some 10)] := by
  obtain ⟨world, reference, reached, followed, same, -⟩ := lruCache_refines_recency 2 (by decide)
    [.insert 1 10, .insert 2 20, .get 2, .makeLru, .insert 3 30, .get 1] (by
      refine .cons rfl trivial ?_
      refine .cons rfl trivial ?_
      refine .cons rfl trivial ?_
      refine .cons rfl rfl ?_
      refine .cons rfl trivial ?_
      exact .cons rfl trivial trivial)
  refine ⟨world, reached, same.trans ?_⟩
  cases followed
  rfl

/-! ### Any capacity -/

/-- A call of a caller that may hold the accessor of any `get`, which `make_lru` then takes. -/
def heldStep (world : World (LruCache Key Value) Key Value) (input : Option Key × Call Key Value) :
    Option (World (LruCache Key Value) Key Value) :=
  worldStep LruCache.perform { world with accessor := input.1 } input.2

/-- The accessor that is held is for an entry that is still there, and `make_lru` takes one. -/
def HoldsAccessor (world : World (LruCache Key Value) Key Value)
    (input : Option Key × Call Key Value) : Prop :=
  (∀ key, input.1 = some key → key ∈ world.state.mappedValues) ∧
    (input.2 = .makeLru → input.1.isSome = true)

/-- The capacity after a call. -/
def Call.capacityAfter (capacity : ℕ) : Call Key Value → ℕ
  | .setCapacity newCapacity => newCapacity
  | _ => capacity

/-- Nothing is inserted while the capacity is 0. -/
def InsertsFit : ℕ → List (Call Key Value) → Prop
  | _, [] => True
  | capacity, call :: rest =>
    (∀ k v, call = .insert k v → 0 < capacity) ∧ InsertsFit (call.capacityAfter capacity) rest

/-- A cache whose capacity is 0 is empty. -/
structure LruCache.NoCapacity (cache : LruCache Key Value) : Prop where
  capacity : cache.capacity = 0
  nodes : cache.keyValues.nodes = []
  indexed : Indexed Prod.fst cache.keyValues cache.mappedValues

namespace LruCache.NoCapacity

variable {cache : LruCache Key Value}

theorem lookup (noCapacity : cache.NoCapacity) (key : Key) :
    cache.mappedValues.lookup key = none := by
  rw [AList.lookup_eq_none, noCapacity.indexed.mem_index_iff, noCapacity.nodes]
  rintro ⟨node, member, -⟩
  cases member

theorem size (noCapacity : cache.NoCapacity) : cache.size = 0 := by
  rw [LruCache.size, noCapacity.indexed.keys_perm.length_eq, NodeList.values, noCapacity.nodes]
  rfl

/-- The assertion of `insert` fails. -/
theorem insert (noCapacity : cache.NoCapacity) (k : Key) (v : Value) : cache.insert k v = none := by
  simp only [LruCache.insert, noCapacity.lookup k, if_pos noCapacity.capacity]

theorem setCapacity (noCapacity : cache.NoCapacity) (maxSize : ℕ) :
    cache.setCapacity maxSize = some ({ cache with capacity := maxSize }, []) := by
  have empty : ¬maxSize < cache.size := by
    rw [noCapacity.size]
    exact Nat.not_lt_zero maxSize
  simp only [LruCache.setCapacity, if_neg empty, Option.bind_eq_bind, Option.bind_some]
  rfl

theorem of_setCapacity {recency : Recency Key Value} (refines : cache.Refines recency) :
    ∃ next keys, cache.setCapacity 0 = some (next, keys) ∧ next.NoCapacity := by
  have length : cache.keyValues.nodes.length = cache.size := by
    rw [refines.length_eq, refines.size_eq]
  by_cases nonempty : 0 < cache.size
  · obtain ⟨kept, dropped, nodes, indexed⟩ :=
      dropBacks_spec (cache.size - 0) refines.indexed [] _ length rfl
    refine ⟨{ kept with capacity := 0 },
      (cache.keyValues.nodes.map fun node => node.2.1).reverse, ?_, rfl, nodes, indexed⟩
    simp only [LruCache.setCapacity, if_pos nonempty, dropped, Option.bind_eq_bind,
      Option.bind_some]
    rfl
  · refine ⟨{ cache with capacity := 0 }, [], ?_, rfl, ?_, refines.indexed⟩
    · simp only [LruCache.setCapacity, if_neg nonempty, Option.bind_eq_bind, Option.bind_some]
      rfl
    · exact List.length_eq_zero_iff.mp (length.trans (Nat.eq_zero_of_not_pos nonempty))

end LruCache.NoCapacity

/-- The cache stands for a recency list, or it has no capacity and there is no accessor. -/
def Served (world : World (LruCache Key Value) Key Value) : Prop :=
  (∃ recency, Follows world.state recency world.accessor) ∨
    world.state.NoCapacity ∧ world.accessor = none

theorem performRecency_capacity {recency next : Recency Key Value} {accessor after : Option Key}
    {call : Call Key Value} {observation : Observation Key Value}
    (performed : performRecency recency accessor call = some (next, after, observation)) :
    next.capacity = call.capacityAfter recency.capacity := by
  cases call with
  | get k =>
    simp only [performRecency] at performed
    split at performed
    · cases performed
      rfl
    · cases performed
      rfl
  | makeLru =>
    obtain ⟨key, -, performed⟩ := Option.bind_eq_some_iff.mp performed
    obtain ⟨demoted, demotes, performed⟩ := Option.bind_eq_some_iff.mp performed
    cases performed
    unfold Recency.demote at demotes
    split at demotes
    · cases demotes
    · cases demotes
      rfl
  | setCapacity maxSize =>
    simp only [performRecency] at performed
    split at performed
    · cases performed
      rfl
    · cases performed
  | _ =>
    cases performed
    rfl

/-- A call on a cache without capacity has a result unless it is an insertion. -/
theorem worldStep_noCapacity {world : World (LruCache Key Value) Key Value}
    (noCapacity : world.state.NoCapacity) (noAccessor : world.accessor = none)
    (call : Call Key Value) (holds : call = .makeLru → world.accessor.isSome = true)
    (fits : ∀ k v, call = .insert k v → 0 < world.state.capacity) :
    ∃ next, worldStep LruCache.perform world call = some next ∧ Served next ∧
      next.state.capacity = call.capacityAfter world.state.capacity := by
  -- the calls that change nothing
  have same : ∀ observation, Served
      (⟨world.state, none, world.observed ++ [observation]⟩ : World _ Key Value) :=
    fun _ => .inr ⟨noCapacity, rfl⟩
  cases call with
  | insert k v =>
    have positive := fits k v rfl
    rw [noCapacity.capacity] at positive
    exact absurd positive (lt_irrefl 0)
  | makeLru =>
    have held := holds rfl
    rw [noAccessor] at held
    cases held
  | get k =>
    refine ⟨_, ?_, same (.got none), rfl⟩
    simp only [worldStep, LruCache.perform, LruCache.get, noCapacity.lookup k]
    rfl
  | erase k =>
    refine ⟨_, ?_, same .nothing, rfl⟩
    simp only [worldStep, LruCache.perform, LruCache.erase, noCapacity.lookup k]
    rfl
  | clear => exact ⟨_, rfl, .inr ⟨⟨noCapacity.capacity, rfl, Indexed.nil rfl⟩, rfl⟩, rfl⟩
  | setCapacity maxSize =>
    refine ⟨⟨{ world.state with capacity := maxSize }, none, world.observed ++ [.evicted []]⟩, ?_,
      ?_, rfl⟩
    · simp only [worldStep, LruCache.perform, noCapacity.setCapacity, Option.bind_eq_bind,
        Option.bind_some]
      rfl
    · rcases Nat.eq_zero_or_pos maxSize with rfl | positive
      · exact .inr ⟨⟨rfl, noCapacity.nodes, noCapacity.indexed⟩, rfl⟩
      · have values : world.state.keyValues.values = [] := by
          rw [NodeList.values, noCapacity.nodes, List.map_nil]
        exact .inl ⟨Recency.new maxSize positive,
          follows_none ⟨rfl, values, noCapacity.indexed⟩⟩
  | _ =>
    refine ⟨_, rfl, .inr ⟨noCapacity, noAccessor⟩, rfl⟩

/-- A call has a result unless it is an insertion and the capacity is 0. -/
theorem worldStep_served {world : World (LruCache Key Value) Key Value} (served : Served world)
    (call : Call Key Value) (holds : call = .makeLru → world.accessor.isSome = true)
    (fits : ∀ k v, call = .insert k v → 0 < world.state.capacity) :
    ∃ next, worldStep LruCache.perform world call = some next ∧ Served next ∧
      next.state.capacity = call.capacityAfter world.state.capacity := by
  rcases served with ⟨recency, follows⟩ | ⟨noCapacity, noAccessor⟩
  · by_cases zero : call = .setCapacity 0
    · subst zero
      obtain ⟨next, keys, performed, noCapacity⟩ :=
        LruCache.NoCapacity.of_setCapacity follows.refines
      refine ⟨⟨next, none, world.observed ++ [.evicted keys]⟩, ?_, .inr ⟨noCapacity, rfl⟩,
        noCapacity.capacity⟩
      simp only [worldStep, LruCache.perform, performed, Option.bind_eq_bind, Option.bind_some]
      rfl
    · have allowed : Allowed world call := by
        cases call with
        | makeLru => exact holds rfl
        | setCapacity maxSize =>
          exact Nat.pos_of_ne_zero fun none => zero (congrArg Call.setCapacity none)
        | _ => trivial
      obtain ⟨next, nextRecency, accessor, observation, performed, followed, nextFollows⟩ :=
        perform_follows world call allowed follows
      refine ⟨⟨next, accessor, world.observed ++ [observation]⟩, ?_,
        .inl ⟨nextRecency, nextFollows⟩, ?_⟩
      · rw [worldStep, performed, Option.map_some]
      · rw [follows.refines.capacity, nextFollows.refines.capacity]
        exact performRecency_capacity followed
  · exact worldStep_noCapacity noCapacity noAccessor call holds fits

theorem worldStep_insert_zero {world : World (LruCache Key Value) Key Value}
    (served : Served world) (zero : world.state.capacity = 0) (k : Key) (v : Value) :
    worldStep LruCache.perform world (.insert k v) = none := by
  rcases served with ⟨recency, follows⟩ | ⟨noCapacity, -⟩
  · have positive := recency.positive
    rw [← follows.refines.capacity, zero] at positive
    exact absurd positive (lt_irrefl 0)
  · simp only [worldStep, LruCache.perform, noCapacity.insert k v]
    rfl

theorem Served.hold {world : World (LruCache Key Value) Key Value} (served : Served world)
    {held : Option Key} (stored : ∀ key, held = some key → key ∈ world.state.mappedValues) :
    Served { world with accessor := held } := by
  rcases served with ⟨recency, follows⟩ | ⟨noCapacity, -⟩
  · exact .inl ⟨recency, follows.refines, fun key same =>
      (follows.refines.mem_keys_iff key).mp (stored key same)⟩
  · refine .inr ⟨noCapacity, Option.eq_none_iff_forall_ne_some.mpr fun key same => ?_⟩
    exact AList.lookup_eq_none.mp (noCapacity.lookup key) (stored key same)

theorem run_iff_insertsFit (calls : List (Option Key × Call Key Value))
    {world : World (LruCache Key Value) Key Value} (served : Served world)
    (holds : Along heldStep HoldsAccessor world calls) :
    (∃ final, run heldStep world calls = some final) ↔
      InsertsFit world.state.capacity (calls.map Prod.snd) := by
  induction calls generalizing world with
  | nil => exact iff_of_true ⟨world, rfl⟩ trivial
  | cons input rest inductionHypothesis =>
    have holding := served.hold holds.1.1
    by_cases fits : ∀ k v, input.2 = .insert k v → 0 < world.state.capacity
    · obtain ⟨next, stepped, nextServed, capacity⟩ :=
        worldStep_served holding input.2 holds.1.2 fits
      have performed : heldStep world input = some next := stepped
      rw [run, performed, Option.bind_some, inductionHypothesis nextServed (holds.2 next performed),
        capacity, List.map_cons, InsertsFit, and_iff_right fits]
    · refine iff_of_false ?_ fun both => fits both.1
      push Not at fits
      obtain ⟨k, v, inserts, zero⟩ := fits
      have failed : heldStep world input = none := by
        rw [heldStep, inserts]
        exact worldStep_insert_zero holding (Nat.le_zero.mp zero) k v
      rw [run, failed]
      rintro ⟨final, impossible⟩
      cases impossible

/-- For every sequence of calls on a new cache of any capacity, `make_lru` with any accessor of an
entry that is still there: no assertion fails and nothing is taken from an empty list exactly if
nothing is inserted while the capacity last given to the constructor or to `set_capacity` is 0. -/
theorem lruCache_runs_iff (capacity : ℕ) (calls : List (Option Key × Call Key Value))
    (holds : Along heldStep HoldsAccessor ⟨LruCache.new capacity, none, []⟩ calls) :
    (∃ world, run heldStep ⟨LruCache.new capacity, none, []⟩ calls = some world) ↔
      InsertsFit capacity (calls.map Prod.snd) := by
  refine run_iff_insertsFit calls ?_ holds
  rcases Nat.eq_zero_or_pos capacity with rfl | positive
  · exact .inr ⟨⟨rfl, rfl, Indexed.nil rfl⟩, rfl⟩
  · exact .inl ⟨Recency.new capacity positive, follows_none ⟨rfl, rfl, Indexed.nil rfl⟩⟩

/-- An accessor is used after another `get`. A capacity of 0 is no harm as long as another one is
set before the next insertion. -/
theorem lruCache_runs_iff_raised :
    ∃ world, run heldStep ⟨(LruCache.new 2 : LruCache ℕ ℕ), none, []⟩
      [(none, .insert 1 10), (none, .insert 2 20), (none, .get 1), (none, .get 2),
        (some 1, .makeLru), (none, .setCapacity 0), (none, .setCapacity 2),
        (none, .insert 1 11)] = some world := by
  refine (lruCache_runs_iff 2 _ ?_).mpr ?_
  · refine .cons rfl ⟨nofun, nofun⟩ ?_
    refine .cons rfl ⟨nofun, nofun⟩ ?_
    refine .cons rfl ⟨nofun, nofun⟩ ?_
    refine .cons rfl ⟨nofun, nofun⟩ ?_
    refine .cons rfl ⟨?_, fun _ => rfl⟩ ?_
    · rintro _ ⟨⟩
      decide
    refine .cons rfl ⟨nofun, nofun⟩ ?_
    refine .cons rfl ⟨nofun, nofun⟩ ?_
    exact .cons rfl ⟨nofun, nofun⟩ trivial
  · have fits : ∀ (call : Call ℕ ℕ) k v, call = .insert k v → 0 < 2 := fun _ _ _ _ => Nat.two_pos
    exact ⟨fits _, fits _, fits _, fits _, fits _, fits _, nofun, fits _, trivial⟩

/-- A cache that was given the capacity 0, which stands for the default, fails the assertion on the
first insertion. -/
theorem zeroCapacity_assertionFails :
    run heldStep ⟨(LruCache.new 0 : LruCache ℕ ℕ), none, []⟩ [(none, .insert 1 10)] = none :=
  rfl

end NativeLibs.Cache
