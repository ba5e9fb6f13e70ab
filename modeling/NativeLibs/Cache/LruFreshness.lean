/-
This file compares `LruTimeoutCache` with the leases its history gives. The
cache finds out late that an entry has expired, by a sweep over its multimap
before the next operation, and a `get` moves an entry in two orders at once, that
of the list and that of the multimap. The leases know nothing of either order:
each key has a deadline and the number of the operation that used it last.

The cache holds the leases when it stores their values, lists their deadlines in
order, and has its keys in the order in which they were used. Every operation
keeps that up, so what a `get` returns can be read off the history, as long as the
deadlines fit into the 64 bits of the clock. One that does not wraps around, and
the next sweep takes the entry.
-/

import NativeLibs.Cache.Lease
import NativeLibs.Cache.LruTimeout

namespace NativeLibs.Cache

open Library

variable {Key Value : Type} [DecidableEq Key]

namespace LruTimeoutCache

/-- A cache with a recency list for its base class holds some leases, all of which were used
before the operation with number `bound`. -/
structure Holds (capacity : ℕ) (timeout : ℤ) (cache : LruTimeoutCache Key Value)
    (recency : Recency Key Value) (leases : Leases Key Value) (bound : ℕ) : Prop where
  tracks : cache.Tracks recency
  settings : recency.capacity = capacity ∧ cache.timeout = timeout ∧ cache.autoUpdate = true
  values : ∀ key, recency.find key = (leases key).map Lease.value
  deadlines : ∀ key lease, leases key = some lease →
    ∃ it, (it, (lease.deadline, ⟨lease.timeout, key⟩)) ∈ cache.timeoutKeys.nodes
  sorted : cache.timeoutKeys.nodes.Pairwise fun node later => node.2.1 ≤ later.2.1
  recent : recency.keys.Pairwise fun newer older =>
    ∀ lease ∈ leases newer, ∀ other ∈ leases older, other.used < lease.used
  earlier : ∀ key lease, leases key = some lease → lease.used < bound

variable {capacity : ℕ} {timeout : ℤ} {cache updated next : LruTimeoutCache Key Value}
  {recency kept : Recency Key Value} {leases : Leases Key Value} {bound : ℕ}

theorem Holds.mem_keys_iff (holds : cache.Holds capacity timeout recency leases bound)
    (key : Key) : key ∈ recency.keys ↔ ∃ lease, leases key = some lease := by
  rw [← not_iff_not, ← recency.find_eq_none_iff, holds.values, Option.map_eq_none_iff, not_exists]
  exact Option.eq_none_iff_forall_ne_some

theorem Holds.deadline_of_mem (holds : cache.Holds capacity timeout recency leases bound)
    (node : ℕ × ℤ × TimeoutKey Key) (stored : node ∈ cache.timeoutKeys.nodes)
    (lease : Lease Value) (leaseOf : leases (entryKey node.2) = some lease) :
    node.2 = (lease.deadline, ⟨lease.timeout, entryKey node.2⟩) := by
  obtain ⟨it, listed⟩ := holds.deadlines _ lease leaseOf
  exact congrArg Prod.snd (Indexed.node_eq_of_key holds.tracks.listed node _ stored listed rfl)

/-! ### The sweep -/

theorem Holds.expired_iff (holds : cache.Holds capacity timeout recency leases bound)
    (time : ℤ) (key : Key) (lease : Lease Value) (leaseOf : leases key = some lease) :
    key ∈ (cache.timeoutKeys.nodes.takeWhile fun node => node.2.1 < time).map
        (fun node => entryKey node.2) ↔ lease.deadline < time := by
  obtain ⟨it, listed⟩ := holds.deadlines key lease leaseOf
  constructor
  · intro member
    obtain ⟨node, swept, rfl⟩ := List.mem_map.mp member
    have passed := List.mem_takeWhile_imp
      (p := fun node : ℕ × ℤ × TimeoutKey Key => decide (node.2.1 < time)) swept
    rw [holds.deadline_of_mem node (List.takeWhile_sublist _ |>.subset swept) lease leaseOf]
      at passed
    exact of_decide_eq_true passed
  · intro passed
    have closed : cache.timeoutKeys.nodes.Pairwise fun node later =>
        decide (later.2.1 < time) = true → decide (node.2.1 < time) = true := by
      refine holds.sorted.imp fun order laterPassed => ?_
      exact decide_eq_true (order.trans_lt (of_decide_eq_true laterPassed))
    rw [← List.takeWhile_append_dropWhile
      (p := fun node : ℕ × ℤ × TimeoutKey Key => decide (node.2.1 < time))
      (l := cache.timeoutKeys.nodes)] at listed
    refine List.mem_map.mpr ⟨(it, (lease.deadline, ⟨lease.timeout, key⟩)), ?_, rfl⟩
    refine (List.mem_append.mp listed).resolve_right fun stays => ?_
    exact of_decide_eq_false (NodeList.eq_false_of_mem_dropWhile _ _ closed _ stays) passed

theorem Holds.update (holds : cache.Holds capacity timeout recency leases bound) (time : ℤ) :
    ∃ next nextRecency, cache.update time = some next ∧
      next.Holds capacity timeout nextRecency (current leases time) bound := by
  obtain ⟨next, performed, expires⟩ := update_expires holds.tracks time
  refine ⟨next, _, performed, expires.tracks, ⟨holds.settings.1,
    expires.timeout.trans holds.settings.2.1, expires.autoUpdate.trans holds.settings.2.2⟩,
    fun key => ?_, fun key lease leaseOf => ?_, ?_, ?_, fun key lease leaseOf => ?_⟩
  · rw [Recency.find_retain, holds.values, current]
    cases leaseOf : leases key with
    | none => exact ite_self _
    | some lease =>
      have expired := holds.expired_iff time key lease leaseOf
      by_cases passed : lease.deadline < time
      · rw [Option.filter_some, decide_eq_false (not_le.mpr passed),
          decide_eq_false (not_not.mpr (expired.mpr passed))]
        rfl
      · rw [Option.filter_some, decide_eq_true (not_lt.mp passed),
          decide_eq_true ((not_congr expired).mpr passed)]
        rfl
  · obtain ⟨leaseOf, inTime⟩ := (current_eq_some_iff _ _ _ _).mp leaseOf
    obtain ⟨it, listed⟩ := holds.deadlines key lease leaseOf
    refine ⟨it, ?_⟩
    rw [expires.nodes]
    rw [← List.takeWhile_append_dropWhile
      (p := fun node : ℕ × ℤ × TimeoutKey Key => decide (node.2.1 < time))
      (l := cache.timeoutKeys.nodes)] at listed
    refine (List.mem_append.mp listed).resolve_left fun swept => ?_
    have passed := (holds.expired_iff time key lease leaseOf).mp
      (List.mem_map.mpr ⟨_, swept, rfl⟩)
    omega
  · rw [expires.nodes]
    exact holds.sorted.sublist (List.dropWhile_sublist _)
  · refine (holds.recent.sublist (List.filter_sublist.map Prod.fst)).imp ?_
    intro newer older order lease leaseOf other otherOf
    exact order lease ((current_eq_some_iff _ _ _ _).mp leaseOf).1 other
      ((current_eq_some_iff _ _ _ _).mp otherOf).1
  · exact holds.earlier key lease ((current_eq_some_iff _ _ _ _).mp leaseOf).1

/-! ### Leases that come and go -/

theorem Holds.length_leases (holds : cache.Holds capacity timeout recency leases bound)
    (keys : List Key) (distinct : keys.Nodup)
    (covers : ∀ key lease, leases key = some lease → key ∈ keys) :
    (keys.filter fun key => (leases key).isSome).length = recency.entries.length := by
  have length : recency.keys.length = recency.entries.length := List.length_map _
  rw [← length]
  refine List.Perm.length_eq ((List.perm_ext_iff_of_nodup (distinct.filter _)
    recency.distinct).mpr fun key => ?_)
  rw [List.mem_filter, Option.isSome_iff_exists, and_iff_right_of_imp]
  · exact (holds.mem_keys_iff key).symm
  · rintro ⟨lease, leaseOf⟩
    exact covers key lease leaseOf

theorem Holds.used_lt_of_last (holds : cache.Holds capacity timeout recency leases bound)
    {front : List Key} {last key : Key} (order : recency.keys = front ++ [last])
    {oldest lease : Lease Value} (lastOf : leases last = some oldest)
    (leaseOf : leases key = some lease) (different : key ≠ last) : oldest.used < lease.used := by
  have member := (holds.mem_keys_iff key).mpr ⟨lease, leaseOf⟩
  have recent := holds.recent
  rw [order] at member recent
  have newer : key ∈ front :=
    (List.mem_append.mp member).resolve_right (mt List.mem_singleton.mp different)
  exact (List.pairwise_append.mp recent).2.2 key newer last List.mem_cons_self lease leaseOf oldest
    lastOf

theorem Holds.mem_evictedBy_iff (holds : cache.Holds capacity timeout recency leases bound)
    (keys : List Key) (distinct : keys.Nodup)
    (covers : ∀ key lease, leases key = some lease → key ∈ keys) (k key : Key) :
    key ∈ recency.evictedBy k ↔ Evicted capacity keys leases k key := by
  have absent : leases k = none ↔ k ∉ recency.keys := by
    rw [← recency.find_eq_none_iff, holds.values, Option.map_eq_none_iff]
  rw [recency.mem_evictedBy_iff, Evicted, absent, holds.length_leases keys distinct covers,
    holds.settings.1]
  refine and_congr_right fun _ => and_congr_right fun _ => ?_
  constructor
  · rintro ⟨front, order⟩
    have member : key ∈ recency.keys := by
      rw [order]
      exact List.mem_concat_self
    obtain ⟨lease, leaseOf⟩ := (holds.mem_keys_iff key).mp member
    refine ⟨lease, leaseOf, fun other _ otherLease otherOf => ?_⟩
    by_cases same : other = key
    · rw [same] at otherOf
      exact (congrArg Lease.used (Option.some.inj (leaseOf.symm.trans otherOf))).le
    · exact (holds.used_lt_of_last order leaseOf otherOf same).le
  · rintro ⟨lease, leaseOf, oldest⟩
    have member := (holds.mem_keys_iff key).mpr ⟨lease, leaseOf⟩
    obtain empty | ⟨front, last, order⟩ := List.eq_nil_or_concat recency.keys
    · rw [empty] at member
      cases member
    rw [List.concat_eq_append] at order
    have lastMember : last ∈ recency.keys := by
      rw [order]
      exact List.mem_concat_self
    obtain ⟨lastLease, lastOf⟩ := (holds.mem_keys_iff last).mp lastMember
    have same : key = last := by
      by_contra different
      exact absurd (holds.used_lt_of_last order lastOf leaseOf different)
        (not_lt.mpr (oldest last (covers last lastLease lastOf) lastLease lastOf))
    exact ⟨front, same ▸ order⟩

/-- A key that is used now comes before all others, and the others stay in their order. -/
theorem Holds.recent_insert (holds : updated.Holds capacity timeout kept leases bound) (k : Key)
    (lease : Lease Value) (used : lease.used = bound) {after : Leases Key Value}
    (new : after k = some lease)
    (old : ∀ key other, key ≠ k → after key = some other → leases key = some other) :
    (kept.insert k lease.value).keys.Pairwise fun newer older =>
      ∀ lease ∈ after newer, ∀ other ∈ after older, other.used < lease.used := by
  show (k :: ((without kept.entries k).take (kept.capacity - 1)).map Prod.fst).Pairwise _
  have apart : ∀ key ∈ ((without kept.entries k).take (kept.capacity - 1)).map Prod.fst,
      key ≠ k := by
    rintro key member rfl
    exact notMem_without kept.entries key (((List.take_sublist _ _).map Prod.fst).subset member)
  refine List.pairwise_cons.mpr ⟨fun key member newest newestOf other otherOf => ?_, ?_⟩
  · obtain rfl := Option.some.inj (new.symm.trans newestOf)
    rw [used]
    exact holds.earlier key other (old key other (apart key member) otherOf)
  · have stays := holds.recent.sublist (((List.take_sublist (kept.capacity - 1)
      (without kept.entries k)).trans List.filter_sublist).map Prod.fst)
    refine List.Pairwise.imp_of_mem (fun newerIn olderIn order newer newerOf older olderOf => ?_)
      stays
    exact order newer (old _ newer (apart _ newerIn) newerOf) older
      (old _ older (apart _ olderIn) olderOf)

/-- A key gets a lease: it becomes the most recent one, its deadline is listed, and what was listed
for the keys that are neither this nor evicted stays. -/
theorem Holds.lease (holds : updated.Holds capacity timeout kept leases bound) (keys : List Key)
    (distinct : keys.Nodup) (covers : ∀ key lease, leases key = some lease → key ∈ keys) (k : Key)
    (lease : Lease Value) (used : lease.used = bound)
    (tracks : next.Tracks (kept.insert k lease.value))
    (settings : next.timeout = updated.timeout ∧ next.autoUpdate = updated.autoUpdate)
    (listed : ∃ it, (it, (lease.deadline, ⟨lease.timeout, k⟩)) ∈ next.timeoutKeys.nodes)
    (others : ∀ node ∈ updated.timeoutKeys.nodes, entryKey node.2 ≠ k →
      entryKey node.2 ∉ kept.evictedBy k → node ∈ next.timeoutKeys.nodes)
    (sorted : next.timeoutKeys.nodes.Pairwise fun node later => node.2.1 ≤ later.2.1) :
    next.Holds capacity timeout (kept.insert k lease.value)
      (leased capacity keys leases k lease) (bound + 1) := by
  have evicted := holds.mem_evictedBy_iff keys distinct covers k
  have new := leased_self capacity keys leases k lease
  have old : ∀ key other, key ≠ k → leased capacity keys leases k lease key = some other →
      leases key = some other ∧ key ∉ kept.evictedBy k := by
    intro key other different leaseOf
    obtain ⟨stays, was⟩ := (leased_eq_some_iff _ _ _ different _ _).mp leaseOf
    exact ⟨was, (not_congr (evicted key)).mpr stays⟩
  refine ⟨tracks, ⟨holds.settings.1, settings.1.trans holds.settings.2.1,
    settings.2.trans holds.settings.2.2⟩, fun key => ?_, fun key other leaseOf => ?_, sorted, ?_,
    fun key other leaseOf => ?_⟩
  · rw [Recency.find_insert, leased, holds.values]
    simp only [evicted]
    split
    · rfl
    · split
      · rfl
      · rfl
  · by_cases same : key = k
    · subst same
      obtain rfl := Option.some.inj (new.symm.trans leaseOf)
      exact listed
    · obtain ⟨oldLease, stays⟩ := old key other same leaseOf
      obtain ⟨it, stored⟩ := holds.deadlines key other oldLease
      exact ⟨it, others _ stored same stays⟩
  · exact holds.recent_insert k lease used new fun key other different leaseOf =>
      (old key other different leaseOf).1
  · by_cases same : key = k
    · subst same
      obtain rfl := Option.some.inj (new.symm.trans leaseOf)
      omega
    · exact Nat.lt_succ_of_lt (holds.earlier key other (old key other same leaseOf).1)

/-- A key loses its lease, or had none: the rest stays. -/
theorem Holds.drop (holds : updated.Holds capacity timeout kept leases bound) (k : Key)
    (erases : Erases updated next kept k) :
    next.Holds capacity timeout (kept.remove k) (Function.update leases k none) (bound + 1) := by
  have old : ∀ key other, Function.update leases k none key = some other →
      key ≠ k ∧ leases key = some other := by
    intro key other leaseOf
    by_cases same : key = k
    · rw [same, Function.update_self] at leaseOf
      cases leaseOf
    · rw [Function.update_of_ne same] at leaseOf
      exact ⟨same, leaseOf⟩
  refine ⟨erases.tracks, ⟨holds.settings.1, erases.timeout.trans holds.settings.2.1,
    erases.autoUpdate.trans holds.settings.2.2⟩, fun key => ?_, fun key other leaseOf => ?_, ?_, ?_,
    fun key other leaseOf => Nat.lt_succ_of_lt (holds.earlier key other (old key other leaseOf).2)⟩
  · by_cases same : key = k
    · rw [same, Function.update_self, Option.map_none, Recency.find_eq_none_iff,
        Recency.mem_keys_remove]
      exact fun both => both.2 rfl
    · rw [Function.update_of_ne same, ← holds.values]
      ext value
      rw [Recency.find_eq_some_iff, Recency.find_eq_some_iff]
      exact (mem_without _ _ _).trans (and_iff_left same)
  · obtain ⟨different, leaseOf⟩ := old key other leaseOf
    obtain ⟨it, stored⟩ := holds.deadlines key other leaseOf
    refine ⟨it, ?_⟩
    rw [erases.nodes]
    exact List.mem_filter.mpr ⟨stored, decide_eq_true (mt List.mem_singleton.mp different)⟩
  · rw [erases.nodes]
    exact holds.sorted.sublist List.filter_sublist
  · refine (holds.recent.sublist (List.filter_sublist.map Prod.fst)).imp ?_
    intro newer older order lease leaseOf other otherOf
    exact order lease (old newer lease leaseOf).2 other (old older other otherOf).2

/-! ### The operations -/

/-- `LruTimeoutCache::get` and the value behind the accessor it returns. -/
def getValue (cache : LruTimeoutCache Key Value) (k : Key) (currentTime now : ℤ) :
    Option (LruTimeoutCache Key Value × Option Value) := do
  let (next, accessor) ← cache.get k currentTime now
  match accessor with
  | none => return (next, none)
  | some key =>
    let value ← next.lru.read key
    return (next, some value)

theorem Holds.autoUpdated (holds : cache.Holds capacity timeout recency leases bound) (time : ℤ) :
    ∃ updated kept, cache.autoUpdated time = some updated ∧
      updated.Holds capacity timeout kept (current leases time) bound := by
  rw [LruTimeoutCache.autoUpdated, if_pos holds.settings.2.2]
  exact holds.update time

theorem Holds.chosenTimeout (holds : updated.Holds capacity timeout kept leases bound) (k : Key)
    (duration : ℤ) (preserveLongerTimeout : Bool) :
    updated.chosenTimeout k duration preserveLongerTimeout =
      some (granted (leases k) duration preserveLongerTimeout) := by
  cases leaseOf : leases k with
  | none =>
    refine chosenTimeout_of_notMem k ?_ duration preserveLongerTimeout
    rw [holds.tracks.sameKeys, holds.mem_keys_iff, leaseOf]
    rintro ⟨lease, impossible⟩
    cases impossible
  | some lease =>
    obtain ⟨it, stored⟩ := holds.deadlines k lease leaseOf
    have chosen := chosenTimeout_of_mem holds.tracks.listed it _ stored duration
      preserveLongerTimeout
    rw [show entryKey (lease.deadline, (⟨lease.timeout, k⟩ : TimeoutKey Key)) = k from rfl] at chosen
    rw [chosen, granted]
    cases preserveLongerTimeout with
    | false => rfl
    | true =>
      rw [Bool.true_and, if_pos rfl]
      by_cases longer : duration < lease.timeout
      · rw [if_pos (decide_eq_true longer), max_eq_left longer.le]
      · rw [if_neg (fun holds => longer (of_decide_eq_true holds)),
          max_eq_right (not_lt.mp longer)]

omit [DecidableEq Key] in
theorem emplaceTimeout_sorted {timeoutKeys : NodeList (ℤ × TimeoutKey Key)}
    (sorted : timeoutKeys.nodes.Pairwise fun node later => node.2.1 ≤ later.2.1)
    (keyTimeout : ℤ) (timeoutKey : TimeoutKey Key) :
    (emplaceTimeout timeoutKeys keyTimeout timeoutKey).nodes.Pairwise
      fun node later => node.2.1 ≤ later.2.1 :=
  timeoutKeys.place_sorted Prod.fst (keyTimeout, timeoutKey) sorted

theorem Holds.insertFor (holds : cache.Holds capacity timeout recency leases bound)
    (keys : List Key) (distinct : keys.Nodup)
    (covers : ∀ key lease, leases key = some lease → key ∈ keys) (k : Key) (v : Value)
    (duration : ℤ) (preserveLongerTimeout : Bool) (time : ℤ)
    (fits : Fits 64 (time + granted (current leases time k) duration preserveLongerTimeout)) :
    ∃ next isNew nextRecency,
      cache.insertFor k v duration preserveLongerTimeout time time = some (next, isNew) ∧
      next.Holds capacity timeout nextRecency
        (leased capacity keys (current leases time) k
          ⟨v, granted (current leases time k) duration preserveLongerTimeout, time, bound⟩)
        (bound + 1) := by
  obtain ⟨updated, kept, updates, held⟩ := holds.autoUpdated time
  obtain ⟨next, performed, inserts⟩ := insertFor_inserts k v duration preserveLongerTimeout time
    time updates held.tracks (held.chosenTimeout k duration preserveLongerTimeout)
  obtain ⟨cleared, forgets, nodes⟩ := inserts.nodes
  rw [wrappedSum_of_fits (by decide) fits] at nodes
  have stillCovers : ∀ key lease, current leases time key = some lease → key ∈ keys :=
    fun key lease leaseOf => covers key lease ((current_eq_some_iff _ _ _ _).mp leaseOf).1
  have sorted := held.sorted.sublist (List.filter_sublist (p := fun node => entryKey node.2 ∉ [k]))
  rw [← forgets.nodes] at sorted
  refine ⟨next, _, _, performed, held.lease keys distinct stillCovers k
    ⟨v, granted (current leases time k) duration preserveLongerTimeout, time, bound⟩ rfl
    inserts.tracks ⟨inserts.timeout, inserts.autoUpdate⟩ ?_ ?_ ?_⟩
  · refine ⟨cleared.timeoutKeys.next, ?_⟩
    rw [nodes]
    refine List.mem_filter.mpr ⟨(cleared.timeoutKeys.mem_place _ _ _).mpr (Or.inl rfl), ?_⟩
    exact decide_eq_true fun evicted => (kept.mem_keys_of_evictedBy k k evicted).2 rfl
  · intro node stored different stays
    have inCleared : node ∈ cleared.timeoutKeys.nodes := by
      rw [forgets.nodes]
      exact List.mem_filter.mpr ⟨stored, decide_eq_true (mt List.mem_singleton.mp different)⟩
    rw [nodes]
    exact List.mem_filter.mpr
      ⟨(cleared.timeoutKeys.mem_place _ _ _).mpr (Or.inr inCleared), decide_eq_true stays⟩
  · rw [nodes]
    exact (emplaceTimeout_sorted sorted _ _).sublist List.filter_sublist

theorem Holds.get (holds : cache.Holds capacity timeout recency leases bound) (k : Key)
    (time : ℤ) :
    ∃ next accessor nextRecency, cache.get k time time = some (next, accessor) ∧
      cache.getValue k time time = some (next, (current leases time k).map Lease.value) ∧
      ((∀ lease ∈ current leases time k, Fits 64 (time + lease.timeout)) →
        next.Holds capacity timeout nextRecency
          (Function.update (current leases time) k ((current leases time k).map
            fun lease => { lease with accessed := time, used := bound })) (bound + 1)) := by
  obtain ⟨updated, kept, updates, held⟩ := holds.autoUpdated time
  cases leaseOf : current leases time k with
  | none =>
    have missing : k ∉ kept.keys := by
      rw [held.mem_keys_iff, leaseOf]
      rintro ⟨lease, impossible⟩
      cases impossible
    have misses := get_misses k time time updates held.tracks missing
    refine ⟨updated, none, kept, misses, ?_, ?_⟩
    · simp only [getValue, misses, Option.bind_eq_bind, Option.bind_some]
      rfl
    · intro _
      rw [Option.map_none, ← leaseOf, Function.update_eq_self]
      exact { held with
        earlier := fun key lease stored => Nat.lt_succ_of_lt (held.earlier key lease stored) }
  | some lease =>
    obtain ⟨it, stored⟩ := held.deadlines k lease leaseOf
    have found : kept.find k = some lease.value := by
      rw [held.values, leaseOf]
      rfl
    obtain ⟨next, performed, renews⟩ := get_renews lease.value it
      (lease.deadline, (⟨lease.timeout, k⟩ : TimeoutKey Key)) time time updates held.tracks found
      stored
    have member := kept.mem_keys_of_find k lease.value found
    have tracks : next.Tracks (kept.insert k lease.value) := renews.tracks
    have read := LruCache.read_refines tracks.refines k lease.value (by
      rw [Recency.find_insert, if_pos rfl])
    refine ⟨next, some k, kept.insert k lease.value, performed, ?_, ?_⟩
    · simp only [getValue, show cache.get k time time = some (next, some k) from performed,
        Option.bind_eq_bind, Option.bind_some, read]
      rfl
    · intro fits
      have nodes := renews.nodes
      rw [wrappedSum_of_fits (by decide) (fits lease rfl)] at nodes
      rw [Option.map_some, ← leased_of_lease capacity kept.keys _ k lease _ leaseOf]
      refine held.lease kept.keys kept.distinct (fun key other otherOf =>
        (held.mem_keys_iff key).mpr ⟨other, otherOf⟩) k
        { lease with accessed := time, used := bound } rfl tracks
        ⟨renews.timeout, renews.autoUpdate⟩ ?_ ?_ ?_
      · refine ⟨updated.timeoutKeys.next, ?_⟩
        rw [nodes]
        exact (updated.timeoutKeys.mem_others_place _ _ _ stored _).mpr (Or.inl rfl)
      · intro node inUpdated different _
        rw [nodes]
        refine (updated.timeoutKeys.mem_others_place _ _ _ stored _).mpr (Or.inr ?_)
        refine (NodeList.mem_others _ _ _).mpr ⟨inUpdated, fun sameHandle => different ?_⟩
        exact (Indexed.handle_eq_iff held.tracks.listed node _ inUpdated stored).mp sameHandle
      · rw [nodes]
        exact (emplaceTimeout_sorted held.sorted _ _).sublist List.filter_sublist

theorem Holds.erase (holds : cache.Holds capacity timeout recency leases bound) (k : Key)
    (time : ℤ) :
    ∃ next nextRecency, cache.erase k time = some next ∧
      next.Holds capacity timeout nextRecency (Function.update (current leases time) k none)
        (bound + 1) := by
  obtain ⟨updated, kept, updates, held⟩ := holds.autoUpdated time
  obtain ⟨next, performed, erases⟩ := erase_erases k time updates held.tracks
  exact ⟨next, _, performed, held.drop k erases⟩

end LruTimeoutCache

/-! ### Whole runs -/

/-- An operation that reads the clock once. -/
def Timed.call : Timed Key Value → TimeoutCall Key Value
  | ⟨time, .insert k v⟩ => .insert k v time time
  | ⟨time, .insertFor k v duration preserveLongerTimeout⟩ =>
    .insertFor k v duration preserveLongerTimeout time time
  | ⟨time, .get k⟩ => .get k time time
  | ⟨time, .erase k⟩ => .erase k time

/-- A cache after a history, the latest operation first. -/
def Remembers (capacity : ℕ) (timeout : ℤ) (past : List (Timed Key Value))
    (cache : LruTimeoutCache Key Value) : Prop :=
  ∃ recency, cache.Holds capacity timeout recency (leasesAfter capacity timeout past) past.length

theorem timeoutStep_remembers (capacity : ℕ) (timeout : ℤ) (past : List (Timed Key Value))
    (operation : Timed Key Value) (dated : DatedBy capacity timeout past operation)
    (world : TimeoutWorld Key Value) (remembers : Remembers capacity timeout past world.cache) :
    ∃ next, timeoutStep world operation.call = some next ∧
      Remembers capacity timeout (operation :: past) next.cache := by
  obtain ⟨recency, holds⟩ := remembers
  have covers := mem_mentioned_of_lease capacity timeout past
  obtain ⟨time, access⟩ := operation
  cases access with
  | insert k v =>
    have plain : granted (current (leasesAfter capacity timeout past) time k) timeout false =
        timeout := by
      unfold granted
      split <;> rfl
    obtain ⟨next, isNew, nextRecency, performed, held⟩ := holds.insertFor (mentioned past)
      (List.nodup_dedup _) covers k v timeout false time (by rw [plain]; exact dated)
    refine ⟨⟨next, none⟩, ?_, nextRecency, ?_⟩
    · rw [Timed.call, timeoutStep, LruTimeoutCache.insert, holds.settings.2.1, performed,
        Option.map_some]
    · rw [plain] at held
      exact held
  | insertFor k v duration preserveLongerTimeout =>
    obtain ⟨next, isNew, nextRecency, performed, held⟩ := holds.insertFor (mentioned past)
      (List.nodup_dedup _) covers k v duration preserveLongerTimeout time dated
    refine ⟨⟨next, none⟩, ?_, nextRecency, held⟩
    rw [Timed.call, timeoutStep, performed, Option.map_some]
  | get k =>
    obtain ⟨next, accessor, nextRecency, performed, -, held⟩ := holds.get k time
    refine ⟨⟨next, accessor⟩, ?_, nextRecency, held dated⟩
    rw [Timed.call, timeoutStep, performed, Option.map_some]
  | erase k =>
    obtain ⟨next, nextRecency, performed, held⟩ := holds.erase k time
    refine ⟨⟨next, none⟩, ?_, nextRecency, held⟩
    rw [Timed.call, timeoutStep, performed, Option.map_some]

theorem new_remembers (capacity : ℕ) (positive : 0 < capacity) (timeout : ℤ) :
    Remembers capacity timeout []
      (LruTimeoutCache.new capacity timeout true : LruTimeoutCache Key Value) :=
  ⟨Recency.new capacity positive,
    LruTimeoutCache.new_tracks capacity positive timeout true, ⟨rfl, rfl, rfl⟩, fun _ => rfl,
    fun _ _ impossible => (nomatch impossible), List.Pairwise.nil, List.Pairwise.nil,
    fun _ _ impossible => (nomatch impossible)⟩

theorem run_remembers (capacity : ℕ) (timeout : ℤ) (past operations : List (Timed Key Value))
    (dated : Dated capacity timeout (operations.reverse ++ past))
    (world : TimeoutWorld Key Value) (remembers : Remembers capacity timeout past world.cache) :
    ∃ final, run timeoutStep world (operations.map Timed.call) = some final ∧
      Remembers capacity timeout (operations.reverse ++ past) final.cache := by
  induction operations generalizing past world with
  | nil => exact ⟨world, rfl, remembers⟩
  | cons operation rest inductionHypothesis =>
    rw [List.reverse_cons, List.append_assoc, List.singleton_append] at dated ⊢
    obtain ⟨next, stepped, nextRemembers⟩ := timeoutStep_remembers capacity timeout past operation
      (Dated.of_append _ dated).1 world remembers
    obtain ⟨final, ran, finalRemembers⟩ :=
      inductionHypothesis (operation :: past) dated next nextRemembers
    refine ⟨final, ?_, finalRemembers⟩
    rw [List.map_cons, run, stepped, Option.bind_some, ran]

/-- For every sequence of insertions, look-ups and erasures on a new cache that updates itself, at
whatever times the clock shows, all of whose deadlines fit into 64 bits: a `get` at the end returns
a value exactly when it is that of the last insertion of the key and no operation since, the `get`
included, finds the key erased, evicted or past the deadline of its last access. -/
theorem timeoutCache_get_iff_fresh (capacity : ℕ) (positive : 0 < capacity) (timeout : ℤ)
    (operations : List (Timed Key Value)) (dated : Dated capacity timeout operations.reverse)
    (k : Key) (time : ℤ) :
    ∃ world next value,
      run timeoutStep ⟨LruTimeoutCache.new capacity timeout true, none⟩
        (operations.map Timed.call) = some world ∧
      world.cache.getValue k time time = some (next, value) ∧
      ∀ v, value = some v ↔ Fresh capacity timeout (operations ++ [⟨time, .get k⟩]) k v := by
  rw [← List.append_nil operations.reverse] at dated
  obtain ⟨world, ran, recency, holds⟩ := run_remembers capacity timeout [] operations dated
    ⟨LruTimeoutCache.new capacity timeout true, none⟩ (new_remembers capacity positive timeout)
  obtain ⟨next, accessor, nextRecency, -, value, -⟩ := holds.get k time
  refine ⟨world, next, _, ran, value, fun v => ?_⟩
  rw [← lease_iff_fresh, List.reverse_append, List.reverse_singleton, List.singleton_append,
    List.append_nil]
  simp only [leasesAfter, Function.update_self, Option.map_eq_some_iff]
  constructor
  · rintro ⟨lease, leaseOf, rfl⟩
    exact ⟨_, ⟨lease, leaseOf, rfl⟩, rfl⟩
  · rintro ⟨_, ⟨lease, leaseOf, rfl⟩, rfl⟩
    exact ⟨lease, leaseOf, rfl⟩

/-- A `get` at 8 renews the deadline of key 1, which is therefore there at 18. Key 2 has not expired
at 14, but the insertion of key 3 evicts it. -/
theorem timeoutCache_get_iff_fresh_renewed :
    Fresh 2 10 ([⟨0, .insert 1 10⟩, ⟨4, .insert 2 20⟩, ⟨8, .get 1⟩, ⟨15, .insert 3 30⟩] ++
        [⟨18, .get 1⟩]) 1 10 ∧
      ¬Fresh 2 10 ([⟨0, .insert 1 10⟩, ⟨4, .insert 2 20⟩, ⟨8, .get 1⟩, ⟨14, .insert 3 30⟩] ++
        [⟨14, .get 2⟩]) 2 20 := by
  constructor
  · obtain ⟨world, next, value, ran, got, fresh⟩ := timeoutCache_get_iff_fresh 2 (by decide) 10
      [⟨0, .insert 1 10⟩, ⟨4, .insert 2 20⟩, ⟨8, .get 1⟩, ⟨15, .insert 3 30⟩] (by decide)
      1 18
    have computed : (run timeoutStep ⟨LruTimeoutCache.new 2 10 true, none⟩
        (List.map Timed.call [⟨0, .insert 1 10⟩, ⟨4, .insert 2 20⟩, ⟨8, .get 1⟩,
          ⟨15, .insert 3 30⟩])).bind
        (fun world => (world.cache.getValue 1 18 18).map Prod.snd) = some (some 10) := rfl
    rw [ran, Option.bind_some, got] at computed
    exact (fresh 10).mp (Option.some.inj computed)
  · obtain ⟨world, next, value, ran, got, fresh⟩ := timeoutCache_get_iff_fresh 2 (by decide) 10
      [⟨0, .insert 1 10⟩, ⟨4, .insert 2 20⟩, ⟨8, .get 1⟩, ⟨14, .insert 3 30⟩] (by decide)
      2 14
    have computed : (run timeoutStep ⟨LruTimeoutCache.new 2 10 true, none⟩
        (List.map Timed.call [⟨0, .insert 1 10⟩, ⟨4, .insert 2 20⟩, ⟨8, .get 1⟩,
          ⟨14, .insert 3 30⟩])).bind
        (fun world => (world.cache.getValue 2 14 14).map Prod.snd) = some none := rfl
    rw [ran, Option.bind_some, got] at computed
    obtain rfl : value = none := Option.some.inj computed
    exact fun isFresh => nomatch (fresh 20).mpr isFresh

/-- The deadline of the longest timeout there is wraps around, and the `get` at the same time finds
the key expired. -/
theorem longestTimeout_expires :
    Fresh 2 10 ([⟨1, .insertFor 1 10 (2 ^ 63 - 1) false⟩] ++ [⟨1, .get 1⟩]) 1 10 ∧
      (run timeoutStep ⟨LruTimeoutCache.new 2 10 true, none⟩
        (List.map Timed.call [⟨1, .insertFor 1 10 (2 ^ 63 - 1) false⟩])).bind
        (fun world => (world.cache.getValue 1 1 1).map Prod.snd) = some none :=
  ⟨(lease_iff_fresh _ _ _ _ _).mp ⟨_, rfl, rfl⟩, rfl⟩

end NativeLibs.Cache
