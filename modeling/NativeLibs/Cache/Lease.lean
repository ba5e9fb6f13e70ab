/-
This file says what the history of an expiring cache means for one of its keys.
An operation is an insertion, a `get` or an `erase`, together with the time the
clock shows during it. After a history some keys have a lease: the value that
was inserted last, the timeout it was given, and the time of the last access,
which is that insertion or a later `get` that found it. A lease that has passed
its deadline is gone at the next operation, whatever that is about.

A lease also remembers which operation used it last. In a full cache the
insertion of another key takes the lease that was used longest ago.

The second half reads a lease off a history: a key has one exactly when some
operation inserted it and none of the operations since then inserted it again,
erased it, evicted it or came after its deadline.
-/

import Mathlib.Data.List.Dedup
import NativeLibs.Library.Pairs
import NativeLibs.Library.SignedNumbers

namespace NativeLibs.Cache

open Library

/-! ### Histories -/

/-- The operations of an expiring cache on its keys. -/
inductive Access (Key Value : Type) where
  | insert (k : Key) (v : Value)
  | insertFor (k : Key) (v : Value) (duration : ℤ) (preserveLongerTimeout : Bool)
  | get (k : Key)
  | erase (k : Key)

namespace Access

variable {Key Value : Type}

/-- The key and the value an operation inserts. -/
def inserted : Access Key Value → Option (Key × Value)
  | .insert k v => some (k, v)
  | .insertFor k v _ _ => some (k, v)
  | _ => none

/-- The key an operation looks up. -/
def got : Access Key Value → Option Key
  | .get k => some k
  | _ => none

/-- The key an operation erases. -/
def erased : Access Key Value → Option Key
  | .erase k => some k
  | _ => none

/-- The key an operation is about. -/
def key : Access Key Value → Key
  | .insert k _ => k
  | .insertFor k _ _ _ => k
  | .get k => k
  | .erase k => k

theorem key_of_inserted {access : Access Key Value} {k : Key} {v : Value}
    (inserts : access.inserted = some (k, v)) : access.key = k := by
  cases access with
  | insert _ _ => exact (Prod.mk.inj (Option.some.inj inserts)).1
  | insertFor _ _ _ _ => exact (Prod.mk.inj (Option.some.inj inserts)).1
  | get _ => cases inserts
  | erase _ => cases inserts

end Access

/-- An operation and the time of it. -/
structure Timed (Key Value : Type) where
  time : ℤ
  access : Access Key Value

/-! ### Leases -/

/-- What a key holds. -/
structure Lease (Value : Type) where
  value : Value
  timeout : ℤ
  /-- The time of the last access. -/
  accessed : ℤ
  /-- The number of the operation that was the last access. -/
  used : ℕ

/-- The last time at which a lease is good without another access. -/
def Lease.deadline {Value : Type} (lease : Lease Value) : ℤ := lease.accessed + lease.timeout

/-- The leases of all keys. -/
abbrev Leases (Key Value : Type) := Key → Option (Lease Value)

variable {Key Value : Type}

/-- The leases whose deadline is not earlier than a time. -/
def current (leases : Leases Key Value) (time : ℤ) : Leases Key Value := fun key =>
  (leases key).filter fun lease => time ≤ lease.deadline

theorem current_eq_some_iff (leases : Leases Key Value) (time : ℤ) (key : Key)
    (lease : Lease Value) :
    current leases time key = some lease ↔ leases key = some lease ∧ time ≤ lease.deadline := by
  rw [current, Option.filter_eq_some_iff, decide_eq_true_eq]

theorem current_eq_some_iff_exists (leases : Leases Key Value) (time : ℤ) (key : Key)
    (next : Lease Value) :
    current leases time key = some next ↔
      ∃ lease, leases key = some lease ∧ time ≤ lease.deadline ∧ next = lease := by
  rw [current_eq_some_iff]
  constructor
  · rintro ⟨holds, inTime⟩
    exact ⟨next, holds, inTime, rfl⟩
  · rintro ⟨lease, holds, inTime, rfl⟩
    exact ⟨holds, inTime⟩

variable [DecidableEq Key]

/-- A key with the least recently used of the leases, all of which are for some of `keys`, makes
room for a key without one when there are as many as the capacity. -/
def Evicted (capacity : ℕ) (keys : List Key) (leases : Leases Key Value) (inserted key : Key) :
    Prop :=
  leases inserted = none ∧ (keys.filter fun other => (leases other).isSome).length = capacity ∧
    ∃ lease ∈ leases key, ∀ other ∈ keys, ∀ otherLease ∈ leases other,
      lease.used ≤ otherLease.used

instance (capacity : ℕ) (keys : List Key) (leases : Leases Key Value) (inserted key : Key) :
    Decidable (Evicted capacity keys leases inserted key) :=
  haveI : Decidable (leases inserted = none) :=
    decidable_of_iff ((leases inserted).isNone = true) Option.isNone_iff_eq_none
  inferInstanceAs (Decidable (_ ∧ _ ∧ _))

/-- A key gets a lease, and another may lose its own. -/
def leased (capacity : ℕ) (keys : List Key) (leases : Leases Key Value) (k : Key)
    (lease : Lease Value) : Leases Key Value := fun key =>
  if key = k then some lease
  else if Evicted capacity keys leases k key then none
  else leases key

theorem leased_self (capacity : ℕ) (keys : List Key) (leases : Leases Key Value) (k : Key)
    (lease : Lease Value) : leased capacity keys leases k lease k = some lease := if_pos rfl

/-- The other keys keep their leases, but for the one that is evicted. -/
theorem leased_eq_some_iff (capacity : ℕ) (keys : List Key) (leases : Leases Key Value)
    {k key : Key} (different : key ≠ k) (lease other : Lease Value) :
    leased capacity keys leases k lease key = some other ↔
      ¬Evicted capacity keys leases k key ∧ leases key = some other := by
  rw [leased, if_neg different, Option.ite_none_left_eq_some]

theorem leased_of_lease (capacity : ℕ) (keys : List Key) (leases : Leases Key Value) (k : Key)
    (old lease : Lease Value) (leaseOf : leases k = some old) :
    leased capacity keys leases k lease = Function.update leases k (some lease) := by
  funext key
  by_cases same : key = k
  · rw [same, Function.update_self, leased, if_pos rfl]
  · rw [Function.update_of_ne same, leased, if_neg same, if_neg]
    rintro ⟨absent, -⟩
    rw [leaseOf] at absent
    cases absent

/-- The timeout for an insertion: with `preserve_longer_timeout` a lease that is still there keeps
its own if that is longer. -/
def granted (old : Option (Lease Value)) (duration : ℤ) (preserveLongerTimeout : Bool) : ℤ :=
  match old with
  | none => duration
  | some lease => if preserveLongerTimeout then max lease.timeout duration else duration

/-- The keys a history is about. -/
def mentioned (past : List (Timed Key Value)) : List Key :=
  (past.map fun operation => operation.access.key).dedup

/-- The leases after a history, the latest operation first, for a cache with a timeout of its own
for insertions that come without one. -/
def leasesAfter (capacity : ℕ) (timeout : ℤ) : List (Timed Key Value) → Leases Key Value
  | [] => fun _ => none
  | ⟨time, access⟩ :: past =>
    let leases := current (leasesAfter capacity timeout past) time
    match access with
    | .insert k v => leased capacity (mentioned past) leases k ⟨v, timeout, time, past.length⟩
    | .insertFor k v duration preserveLongerTimeout =>
      leased capacity (mentioned past) leases k
        ⟨v, granted (leases k) duration preserveLongerTimeout, time, past.length⟩
    | .get k => Function.update leases k
        ((leases k).map fun lease => { lease with accessed := time, used := past.length })
    | .erase k => Function.update leases k none

/-! ### The fate of one key -/

/-- An operation evicts a key. -/
def EvictedBy (capacity : ℕ) (timeout : ℤ) (past : List (Timed Key Value))
    (operation : Timed Key Value) (key : Key) : Prop :=
  ∃ pair ∈ operation.access.inserted, Evicted capacity (mentioned past)
    (current (leasesAfter capacity timeout past) operation.time) pair.1 key

/-- The timeout an insertion gives its key. -/
def grantedBy (capacity : ℕ) (timeout : ℤ) (past : List (Timed Key Value))
    (insertion : Timed Key Value) : ℤ :=
  match insertion.access with
  | .insertFor k _ duration preserveLongerTimeout =>
    granted (current (leasesAfter capacity timeout past) insertion.time k) duration
      preserveLongerTimeout
  | _ => timeout

/-- The deadline of a key after some operations that leave it its lease, all of whose look-ups of
the key therefore find it. -/
def deadlineAfter (k : Key) (timeout deadline : ℤ) (operations : List (Timed Key Value)) : ℤ :=
  operations.foldl
    (fun deadline operation =>
      if operation.access.got = some k then operation.time + timeout else deadline)
    deadline

/-- An operation leaves a key its lease. Before it came the operations `past` up to the insertion
of the key, the latest first, and then the operations `since`. -/
structure Spared (capacity : ℕ) (timeout : ℤ) (k : Key) (past : List (Timed Key Value))
    (given deadline : ℤ) (since : List (Timed Key Value)) (operation : Timed Key Value) :
    Prop where
  notInserted : ∀ v, operation.access.inserted ≠ some (k, v)
  notErased : operation.access.erased ≠ some k
  notEvicted : ¬EvictedBy capacity timeout (since.reverse ++ past) operation k
  notExpired : operation.time ≤ deadlineAfter k given deadline since

/-- A history inserted a key with a value, and no operation since then took the key's lease. -/
def Fresh (capacity : ℕ) (timeout : ℤ) (operations : List (Timed Key Value)) (k : Key) (v : Value) :
    Prop :=
  ∃ earlier insertion later, operations = earlier ++ insertion :: later ∧
    insertion.access.inserted = some (k, v) ∧
    ∀ since operation rest, later = since ++ operation :: rest →
      Spared capacity timeout k (insertion :: earlier.reverse)
        (grantedBy capacity timeout earlier.reverse insertion)
        (insertion.time + grantedBy capacity timeout earlier.reverse insertion) since operation

/-- The deadline an operation sets, which is an insertion or a look-up that finds a lease, fits into
the 64 bits of the clock. -/
def DatedBy (capacity : ℕ) (timeout : ℤ) (past : List (Timed Key Value)) : Timed Key Value → Prop
  | ⟨time, .insert _ _⟩ => Fits 64 (time + timeout)
  | ⟨time, .insertFor k _ duration preserveLongerTimeout⟩ =>
    Fits 64 (time + granted (current (leasesAfter capacity timeout past) time k) duration
      preserveLongerTimeout)
  | ⟨time, .get k⟩ => ∀ lease ∈ current (leasesAfter capacity timeout past) time k,
    Fits 64 (time + lease.timeout)
  | ⟨_, .erase _⟩ => True

instance (capacity : ℕ) (timeout : ℤ) (past : List (Timed Key Value)) :
    (operation : Timed Key Value) → Decidable (DatedBy capacity timeout past operation)
  | ⟨_, .insert _ _⟩ => inferInstanceAs (Decidable (Fits _ _))
  | ⟨_, .insertFor _ _ _ _⟩ => inferInstanceAs (Decidable (Fits _ _))
  | ⟨_, .get _⟩ => inferInstanceAs (Decidable (∀ lease ∈ _, Fits 64 _))
  | ⟨_, .erase _⟩ => inferInstanceAs (Decidable True)

/-- All the deadlines that a history sets fit, the latest operation first. -/
def Dated (capacity : ℕ) (timeout : ℤ) : List (Timed Key Value) → Prop
  | [] => True
  | operation :: past => DatedBy capacity timeout past operation ∧ Dated capacity timeout past

instance instDecidableDated (capacity : ℕ) (timeout : ℤ) :
    (history : List (Timed Key Value)) → Decidable (Dated capacity timeout history)
  | [] => inferInstanceAs (Decidable True)
  | _ :: past =>
    haveI := instDecidableDated capacity timeout past
    inferInstanceAs (Decidable (_ ∧ _))

theorem Dated.of_append {capacity : ℕ} {timeout : ℤ} (later : List (Timed Key Value))
    {past : List (Timed Key Value)} (dated : Dated capacity timeout (later ++ past)) :
    Dated capacity timeout past := by
  induction later with
  | nil => exact dated
  | cons operation rest inductionHypothesis => exact inductionHypothesis dated.2

/-! ### Leases from histories -/

variable (capacity : ℕ) (timeout : ℤ)

theorem leasesAfter_of_inserted (past : List (Timed Key Value)) (insertion : Timed Key Value)
    (k : Key) (v : Value) (inserts : insertion.access.inserted = some (k, v)) :
    leasesAfter capacity timeout (insertion :: past) k =
      some ⟨v, grantedBy capacity timeout past insertion, insertion.time, past.length⟩ := by
  obtain ⟨time, access⟩ := insertion
  cases access with
  | insert key value =>
    obtain ⟨rfl, rfl⟩ := Prod.mk.inj (Option.some.inj inserts)
    simp only [leasesAfter, leased, grantedBy, if_true]
  | insertFor key value duration preserveLongerTimeout =>
    obtain ⟨rfl, rfl⟩ := Prod.mk.inj (Option.some.inj inserts)
    simp only [leasesAfter, leased, grantedBy, if_true]
  | get key => cases inserts
  | erase key => cases inserts

/-- What becomes of a lease when the operation does not insert its key. -/
def Lease.touched (lease : Lease Value) (past : List (Timed Key Value))
    (operation : Timed Key Value) (k : Key) : Lease Value :=
  if operation.access.got = some k then
    { lease with accessed := operation.time, used := past.length }
  else lease

@[simp]
theorem Lease.touched_value (lease : Lease Value) (past : List (Timed Key Value))
    (operation : Timed Key Value) (k : Key) :
    (lease.touched past operation k).value = lease.value := by
  rw [Lease.touched]
  split <;> rfl

@[simp]
theorem Lease.touched_timeout (lease : Lease Value) (past : List (Timed Key Value))
    (operation : Timed Key Value) (k : Key) :
    (lease.touched past operation k).timeout = lease.timeout := by
  rw [Lease.touched]
  split <;> rfl

theorem Lease.touched_deadline (lease : Lease Value) (past : List (Timed Key Value))
    (operation : Timed Key Value) (k : Key) :
    (lease.touched past operation k).deadline =
      if operation.access.got = some k then operation.time + lease.timeout else lease.deadline := by
  rw [Lease.touched]
  split <;> rfl

/-- The insertion of another key leaves a key its lease if it is in time and does not evict it. -/
theorem leasesAfter_of_otherInserted (past : List (Timed Key Value)) (operation : Timed Key Value)
    (k key : Key) (value : Value) (lease : Lease Value) (different : k ≠ key)
    (inserts : operation.access.inserted = some (key, value))
    (after : leasesAfter capacity timeout (operation :: past) = leased capacity (mentioned past)
      (current (leasesAfter capacity timeout past) operation.time) key lease)
    (next : Lease Value) :
    leasesAfter capacity timeout (operation :: past) k = some next ↔
      ∃ lease, leasesAfter capacity timeout past k = some lease ∧
        operation.time ≤ lease.deadline ∧ ¬EvictedBy capacity timeout past operation k ∧
        next = lease := by
  have evicted : EvictedBy capacity timeout past operation k ↔
      Evicted capacity (mentioned past)
        (current (leasesAfter capacity timeout past) operation.time) key k := by
    simp only [EvictedBy, inserts, Option.mem_some_iff, exists_eq_left']
  rw [after, leased, if_neg different, evicted]
  split
  · rename_i isEvicted
    exact iff_of_false (fun impossible => nomatch impossible)
      fun ⟨_, _, _, notEvicted, _⟩ => notEvicted isEvicted
  · rename_i notEvicted
    simp only [current_eq_some_iff_exists, notEvicted, not_false_eq_true, true_and]

/-- Any other operation leaves a key its lease if it is in time, does not erase the key and does
not evict it. -/
theorem leasesAfter_of_notInserted (past : List (Timed Key Value)) (operation : Timed Key Value)
    (k : Key) (notInserted : ∀ v, operation.access.inserted ≠ some (k, v)) (next : Lease Value) :
    leasesAfter capacity timeout (operation :: past) k = some next ↔
      ∃ lease, leasesAfter capacity timeout past k = some lease ∧
        operation.time ≤ lease.deadline ∧ operation.access.erased ≠ some k ∧
        ¬EvictedBy capacity timeout past operation k ∧
        next = lease.touched past operation k := by
  obtain ⟨time, access⟩ := operation
  have notEvictedBy : access.inserted = none →
      ¬EvictedBy capacity timeout past ⟨time, access⟩ k := by
    rintro nothing ⟨pair, member, -⟩
    rw [nothing] at member
    cases member
  cases access with
  | insert key value =>
    have different : k ≠ key := fun same => notInserted value (same ▸ rfl)
    rw [leasesAfter_of_otherInserted capacity timeout past _ k key value _ different rfl rfl]
    simp only [Access.erased, Lease.touched, Access.got, reduceCtorEq, ne_eq, not_false_eq_true,
      true_and, if_false]
  | insertFor key value duration preserveLongerTimeout =>
    have different : k ≠ key := fun same => notInserted value (same ▸ rfl)
    rw [leasesAfter_of_otherInserted capacity timeout past _ k key value _ different rfl rfl]
    simp only [Access.erased, Lease.touched, Access.got, reduceCtorEq, ne_eq, not_false_eq_true,
      true_and, if_false]
  | get key =>
    simp only [notEvictedBy rfl, Access.erased, Lease.touched, Access.got, Option.some.injEq,
      reduceCtorEq, ne_eq, not_false_eq_true, true_and, leasesAfter]
    by_cases same : key = k
    · subst same
      simp only [Function.update_self, Option.map_eq_some_iff, if_true, current_eq_some_iff,
        and_assoc]
      exact exists_congr fun lease => and_congr_right fun _ => and_congr_right fun _ => eq_comm
    · rw [Function.update_of_ne (Ne.symm same), current_eq_some_iff_exists]
      simp only [if_neg same]
  | erase key =>
    simp only [notEvictedBy rfl, Access.erased, Lease.touched, Access.got, Option.some.injEq,
      reduceCtorEq, ne_eq, not_false_eq_true, true_and, if_false, leasesAfter]
    by_cases same : key = k
    · subst same
      simp only [Function.update_self, reduceCtorEq, not_true_eq_false, false_and, and_false,
        exists_false]
    · rw [Function.update_of_ne (Ne.symm same), current_eq_some_iff_exists]
      simp only [same, not_false_eq_true, true_and]

theorem mem_mentioned_of_lease (past : List (Timed Key Value)) (key : Key) (lease : Lease Value)
    (holds : leasesAfter capacity timeout past key = some lease) : key ∈ mentioned past := by
  induction past generalizing lease with
  | nil => cases holds
  | cons operation past inductionHypothesis =>
    rw [mentioned, List.mem_dedup, List.map_cons, List.mem_cons]
    by_cases same : key = operation.access.key
    · exact Or.inl same
    · -- for another key than that of the operation there was a lease before
      have notInserted : ∀ v, operation.access.inserted ≠ some (key, v) :=
        fun v inserts => same (Access.key_of_inserted inserts).symm
      obtain ⟨old, was, -⟩ :=
        (leasesAfter_of_notInserted capacity timeout past operation key notInserted lease).mp holds
      exact Or.inr (List.mem_dedup.mp (inductionHypothesis old was))

theorem cut_append_singleton {Element : Type*} {elements before rest : List Element}
    {last element : Element} (cut : elements ++ [last] = before ++ element :: rest) :
    (rest = [] ∧ before = elements ∧ element = last) ∨
      ∃ middle, rest = middle ++ [last] ∧ elements = before ++ element :: middle := by
  obtain rfl | ⟨middle, final, rfl⟩ := List.eq_nil_or_concat rest
  · obtain ⟨rfl, same⟩ := List.append_inj' cut rfl
    cases same
    exact Or.inl ⟨rfl, rfl, rfl⟩
  · rw [List.concat_eq_append, ← List.cons_append, ← List.append_assoc] at cut
    obtain ⟨rfl, same⟩ := List.append_inj' cut rfl
    cases same
    exact Or.inr ⟨middle, List.concat_eq_append, rfl⟩

/-- What holds wherever a longer list is cut holds wherever the shorter one is, and at its end. -/
theorem forall_cut_append_singleton {Element : Type*} {holds : List Element → Element → Prop}
    (elements : List Element) (last : Element) :
    (∀ before element rest, elements ++ [last] = before ++ element :: rest →
        holds before element) ↔
      (∀ before element rest, elements = before ++ element :: rest → holds before element) ∧
        holds elements last := by
  constructor
  · refine fun everywhere => ⟨fun before element rest cut => ?_, everywhere _ _ [] rfl⟩
    refine everywhere before element (rest ++ [last]) ?_
    rw [cut, List.append_assoc, List.cons_append]
  · rintro ⟨everywhere, atLast⟩ before element rest cut
    obtain ⟨-, rfl, rfl⟩ | ⟨middle, -, shorter⟩ := cut_append_singleton cut
    · exact atLast
    · exact everywhere before element middle shorter

theorem deadlineAfter_append_singleton (k : Key) (given deadline : ℤ)
    (operations : List (Timed Key Value)) (operation : Timed Key Value) :
    deadlineAfter k given deadline (operations ++ [operation]) =
      if operation.access.got = some k then operation.time + given
      else deadlineAfter k given deadline operations := by
  rw [deadlineAfter, List.foldl_append]
  rfl

/-- The lease of a key is what its last insertion gave it, with the deadline of its last access,
and it is there as long as the operations spare it. -/
theorem lease_iff_spared (operations : List (Timed Key Value)) (k : Key) (v : Value)
    (given deadline : ℤ) :
    (∃ lease, leasesAfter capacity timeout operations.reverse k = some lease ∧ lease.value = v ∧
        lease.timeout = given ∧ lease.deadline = deadline) ↔
      ∃ earlier insertion later, operations = earlier ++ insertion :: later ∧
        insertion.access.inserted = some (k, v) ∧
        given = grantedBy capacity timeout earlier.reverse insertion ∧
        deadline = deadlineAfter k given (insertion.time + given) later ∧
        ∀ since operation rest, later = since ++ operation :: rest →
          Spared capacity timeout k (insertion :: earlier.reverse) given (insertion.time + given)
            since operation := by
  induction operations using List.reverseRecOn generalizing deadline with
  | nil =>
    refine iff_of_false ?_ ?_
    · rintro ⟨lease, impossible, -⟩
      cases impossible
    · rintro ⟨earlier, insertion, later, impossible, -⟩
      exact absurd impossible (List.append_ne_nil_of_right_ne_nil _ (List.cons_ne_nil _ _)).symm
  | append_singleton operations operation inductionHypothesis =>
    rw [List.reverse_append, List.reverse_singleton, List.singleton_append]
    by_cases inserts : ∃ w, operation.access.inserted = some (k, w)
    · -- the lease is new, and any older insertion of the key is not the last
      obtain ⟨w, inserts⟩ := inserts
      rw [leasesAfter_of_inserted capacity timeout _ operation k w inserts]
      constructor
      · rintro ⟨lease, made, rfl, rfl, rfl⟩
        obtain rfl := Option.some.inj made
        exact ⟨operations, operation, [], rfl, inserts, rfl, rfl,
          fun since _ _ cut => absurd cut
            (List.append_ne_nil_of_right_ne_nil since (List.cons_ne_nil _ _)).symm⟩
      · rintro ⟨earlier, insertion, later, cut, inserted, rfl, rfl, spared⟩
        obtain ⟨rfl, rfl, rfl⟩ | ⟨since, rfl, -⟩ := cut_append_singleton cut
        · obtain ⟨-, rfl⟩ := Prod.mk.inj (Option.some.inj (inserts.symm.trans inserted))
          exact ⟨_, rfl, rfl, rfl, rfl⟩
        · exact absurd inserts ((spared since operation [] rfl).notInserted w)
    · have notInserted : ∀ w, operation.access.inserted ≠ some (k, w) :=
        fun w inserted => inserts ⟨w, inserted⟩
      simp only [leasesAfter_of_notInserted capacity timeout _ operation k notInserted]
      constructor
      · rintro ⟨_, ⟨lease, holds, inTime, notErased, notEvicted, rfl⟩, rfl, rfl, rfl⟩
        simp only [Lease.touched_value, Lease.touched_timeout] at inductionHypothesis ⊢
        obtain ⟨earlier, insertion, later, rfl, inserted, given, deadline, spared⟩ :=
          (inductionHypothesis lease.deadline).mp ⟨lease, holds, rfl, rfl, rfl⟩
        refine ⟨earlier, insertion, later ++ [operation], ?_, inserted, given, ?_, ?_⟩
        · rw [List.append_assoc, List.cons_append]
        · rw [deadlineAfter_append_singleton, ← deadline, Lease.touched_deadline]
        · refine (forall_cut_append_singleton later operation).mpr ⟨spared, notInserted, notErased,
            ?_, deadline ▸ inTime⟩
          rw [List.reverse_append, List.reverse_cons, List.append_assoc] at notEvicted
          exact notEvicted
      · rintro ⟨earlier, insertion, later, cut, inserted, given, rfl, spared⟩
        obtain ⟨rfl, rfl, rfl⟩ | ⟨since, rfl, rfl⟩ := cut_append_singleton cut
        · exact absurd inserted (notInserted v)
        · obtain ⟨before, atLast⟩ := (forall_cut_append_singleton since operation).mp spared
          obtain ⟨lease, holds, rfl, rfl, deadline⟩ := (inductionHypothesis _).mpr
            ⟨earlier, insertion, since, rfl, inserted, given, rfl, before⟩
          refine ⟨_, ⟨lease, holds, deadline ▸ atLast.notExpired, atLast.notErased, ?_, rfl⟩, ?_⟩
          · have notEvicted := atLast.notEvicted
            rw [List.reverse_append, List.reverse_cons, List.append_assoc]
            exact notEvicted
          · rw [deadlineAfter_append_singleton, ← deadline]
            exact ⟨lease.touched_value _ _ _, lease.touched_timeout _ _ _,
              lease.touched_deadline _ _ _⟩

theorem lease_iff_fresh (operations : List (Timed Key Value)) (k : Key) (v : Value) :
    (∃ lease, leasesAfter capacity timeout operations.reverse k = some lease ∧ lease.value = v) ↔
      Fresh capacity timeout operations k v := by
  constructor
  · rintro ⟨lease, holds, rfl⟩
    obtain ⟨earlier, insertion, later, cut, inserted, given, -, spared⟩ :=
      (lease_iff_spared capacity timeout operations k _ _ _).mp ⟨lease, holds, rfl, rfl, rfl⟩
    rw [given] at spared
    exact ⟨earlier, insertion, later, cut, inserted, spared⟩
  · rintro ⟨earlier, insertion, later, cut, inserted, spared⟩
    obtain ⟨lease, holds, value, -, -⟩ := (lease_iff_spared capacity timeout operations k v _ _).mpr
      ⟨earlier, insertion, later, cut, inserted, rfl, rfl, spared⟩
    exact ⟨lease, holds, value⟩

end NativeLibs.Cache
