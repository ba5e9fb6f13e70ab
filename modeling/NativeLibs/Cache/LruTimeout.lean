/-
This file embeds `LruTimeoutCache` of `common/cache.h`, an `LruCache` whose
entries also expire. Beside the list and the map of its base class it keeps a
multimap from deadlines to keys and a map from the keys to the iterators of the
multimap, and these have to be changed whenever the base class gains or loses a
key. The base class reports the key an insertion evicts through the virtual
`on_key_evicted`. Its `set_capacity` is not virtual and reports nothing.

So the bookkeeping stays complete as long as no capacity is set below the
number of entries, and a single such call breaks it.
-/

import NativeLibs.Cache.Lru
import NativeLibs.Library.Runs
import NativeLibs.Library.SignedNumbers

namespace NativeLibs.Cache

open Library

/-- `LruTimeoutCache::TimeoutKey`. -/
structure TimeoutKey (Key : Type) where
  timeout : ℤ
  key : Key
  deriving DecidableEq

/-- `LruTimeoutCache`. Time is counted in the clock's ticks, of which a number has 64 bits. -/
structure LruTimeoutCache (Key Value : Type) where
  lru : LruCache Key Value
  timeout : ℤ
  autoUpdate : Bool
  timeoutKeys : NodeList (ℤ × TimeoutKey Key)
  keysTimeoutIters : AList fun _ : Key => ℕ

namespace LruTimeoutCache

variable {Key Value : Type} [DecidableEq Key]

/-! ### The operations -/

/-- The constructor. -/
def new (capacity : ℕ) (timeout : ℤ) (autoUpdate : Bool) : LruTimeoutCache Key Value :=
  ⟨LruCache.new capacity, timeout, autoUpdate, NodeList.empty, ∅⟩

/-- `LruTimeoutCache::on_key_evicted`; `insert` and `erase` hold the same lines. -/
def onKeyEvicted (cache : LruTimeoutCache Key Value) (key : Key) :
    Option (LruTimeoutCache Key Value) :=
  match cache.keysTimeoutIters.lookup key with
  | none => some cache
  | some it => do
    let timeoutKeys ← cache.timeoutKeys.erase it
    return { cache with timeoutKeys, keysTimeoutIters := cache.keysTimeoutIters.erase key }

/-- The loop of `LruTimeoutCache::update` over the entries before `first_up_to_date`. -/
def updateLoop (cache : LruTimeoutCache Key Value) :
    List (ℕ × ℤ × TimeoutKey Key) → Option (LruTimeoutCache Key Value)
  | [] => some cache
  | (i, _, timeoutKey) :: rest => do
    let lru ← cache.lru.erase timeoutKey.key
    let keysTimeoutIters := cache.keysTimeoutIters.erase timeoutKey.key
    let timeoutKeys ← cache.timeoutKeys.erase i
    updateLoop { cache with lru, keysTimeoutIters, timeoutKeys } rest

/-- `LruTimeoutCache::update` at a reading of the clock. -/
def update (cache : LruTimeoutCache Key Value) (currentTime : ℤ) :
    Option (LruTimeoutCache Key Value) :=
  cache.updateLoop (cache.timeoutKeys.nodes.takeWhile fun node => node.2.1 < currentTime)

/-- The update most operations start with. -/
def autoUpdated (cache : LruTimeoutCache Key Value) (currentTime : ℤ) :
    Option (LruTimeoutCache Key Value) :=
  if cache.autoUpdate then cache.update currentTime else some cache

/-- The timeout `LruTimeoutCache::insert` gives an entry. -/
def chosenTimeout (cache : LruTimeoutCache Key Value) (k : Key) (duration : ℤ)
    (preserveLongerTimeout : Bool) : Option ℤ :=
  match cache.keysTimeoutIters.lookup k with
  | none => some duration
  | some it => do
    let entry ← cache.timeoutKeys.valueAt it
    return if preserveLongerTimeout && entry.2.timeout > duration then entry.2.timeout else duration

/-- `m_timeout_keys.emplace`: behind the entries that are not later. -/
def emplaceTimeout (timeoutKeys : NodeList (ℤ × TimeoutKey Key)) (keyTimeout : ℤ)
    (timeoutKey : TimeoutKey Key) : NodeList (ℤ × TimeoutKey Key) :=
  timeoutKeys.place (fun entry => entry.1 ≤ keyTimeout) (keyTimeout, timeoutKey)

/-- `LruTimeoutCache::insert` with a timeout. `LruCache::insert` calls `on_key_evicted` for the
key it evicts. -/
def insertFor (cache : LruTimeoutCache Key Value) (k : Key) (v : Value) (duration : ℤ)
    (preserveLongerTimeout : Bool) (currentTime now : ℤ) :
    Option (LruTimeoutCache Key Value × Bool) := do
  let updated ← cache.autoUpdated currentTime
  let chosen ← updated.chosenTimeout k duration preserveLongerTimeout
  let cleared ← updated.onKeyEvicted k
  let i := cleared.timeoutKeys.next
  let timeoutKeys := emplaceTimeout cleared.timeoutKeys (wrappedSum 64 now chosen) ⟨chosen, k⟩
  let keysTimeoutIters := emplace cleared.keysTimeoutIters k i
  let (lru, isNew, evicted) ← cleared.lru.insert k v
  let next ← evicted.foldlM onKeyEvicted { cleared with lru, timeoutKeys, keysTimeoutIters }
  return (next, isNew)

/-- `LruTimeoutCache::insert`. -/
def insert (cache : LruTimeoutCache Key Value) (k : Key) (v : Value) (currentTime now : ℤ) :
    Option (LruTimeoutCache Key Value × Bool) :=
  cache.insertFor k v cache.timeout false currentTime now

/-- `LruTimeoutCache::get`. -/
def get (cache : LruTimeoutCache Key Value) (k : Key) (currentTime now : ℤ) :
    Option (LruTimeoutCache Key Value × Option Key) := do
  let updated ← cache.autoUpdated currentTime
  let (lru, v) ← updated.lru.get k
  match v with
  | none => return ({ updated with lru }, none)
  | some _ =>
    -- `assert(keyi != m_keys_timeout_iters.end())`
    let keyi ← updated.keysTimeoutIters.lookup k
    let entry ← updated.timeoutKeys.valueAt keyi
    let toi := updated.timeoutKeys.next
    let emplaced := emplaceTimeout updated.timeoutKeys (wrappedSum 64 now entry.2.timeout) entry.2
    let timeoutKeys ← emplaced.erase keyi
    let keysTimeoutIters := updated.keysTimeoutIters.insert k toi
    return ({ updated with lru, timeoutKeys, keysTimeoutIters }, v)

/-- `LruTimeoutCache::clear`. -/
def clear (cache : LruTimeoutCache Key Value) : LruTimeoutCache Key Value :=
  { cache with timeoutKeys := cache.timeoutKeys.clear, keysTimeoutIters := ∅,
               lru := cache.lru.clear }

/-- `LruTimeoutCache::erase`. -/
def erase (cache : LruTimeoutCache Key Value) (k : Key) (currentTime : ℤ) :
    Option (LruTimeoutCache Key Value) := do
  let updated ← cache.autoUpdated currentTime
  let cleared ← updated.onKeyEvicted k
  let lru ← cleared.lru.erase k
  return { cleared with lru }

/-- `LruCache::make_lru`, which the class inherits. -/
def makeLru (cache : LruTimeoutCache Key Value) (accessor : Option Key) :
    Option (LruTimeoutCache Key Value) := do
  let lru ← cache.lru.makeLru accessor
  return { cache with lru }

/-- `LruCache::set_capacity`, which the class inherits. The keys it drops are not reported. -/
def setCapacity (cache : LruTimeoutCache Key Value) (maxSize : ℕ) :
    Option (LruTimeoutCache Key Value) := do
  let (lru, _) ← cache.lru.setCapacity maxSize
  return { cache with lru }

/-! ### The bookkeeping of one operation -/

/-- The key of an entry of the multimap. -/
def entryKey (entry : ℤ × TimeoutKey Key) : Key := entry.2.key

/-- The map of iterators is the index of the multimap. -/
def Listed (cache : LruTimeoutCache Key Value) : Prop :=
  Indexed entryKey cache.timeoutKeys cache.keysTimeoutIters

/-- The base class stands for a recency list, and the bookkeeping is about its keys. -/
structure Tracks (cache : LruTimeoutCache Key Value) (recency : Recency Key Value) : Prop where
  refines : cache.lru.Refines recency
  listed : cache.Listed
  sameKeys : ∀ key, key ∈ cache.keysTimeoutIters ↔ key ∈ recency.keys

variable {cache : LruTimeoutCache Key Value} {recency : Recency Key Value}

theorem Listed.entry_of_lookup (listed : cache.Listed) (key : Key) (it : ℕ)
    (found : cache.keysTimeoutIters.lookup key = some it) :
    ∃ entry, (it, entry) ∈ cache.timeoutKeys.nodes ∧ entryKey entry = key :=
  (listed.points key it).mp found

/-- Nothing but the bookkeeping of some keys is gone. -/
structure Forgets (cache next : LruTimeoutCache Key Value) (keys : List Key) : Prop where
  lru : next.lru = cache.lru
  timeout : next.timeout = cache.timeout
  autoUpdate : next.autoUpdate = cache.autoUpdate
  listed : next.Listed
  nodes : next.timeoutKeys.nodes =
    cache.timeoutKeys.nodes.filter fun node => entryKey node.2 ∉ keys

theorem Forgets.mem_iff {next : LruTimeoutCache Key Value} {keys : List Key}
    (forgets : cache.Forgets next keys) (listed : cache.Listed) (key : Key) :
    key ∈ next.keysTimeoutIters ↔ key ∈ cache.keysTimeoutIters ∧ key ∉ keys := by
  rw [Indexed.mem_index_iff forgets.listed, Indexed.mem_index_iff listed, forgets.nodes]
  simp only [List.mem_filter, decide_eq_true_eq]
  constructor
  · rintro ⟨node, ⟨stored, kept⟩, rfl⟩
    exact ⟨⟨node, stored, rfl⟩, kept⟩
  · rintro ⟨⟨node, stored, rfl⟩, kept⟩
    exact ⟨node, ⟨stored, kept⟩, rfl⟩

theorem onKeyEvicted_forgets (listed : cache.Listed) (key : Key) :
    ∃ next, cache.onKeyEvicted key = some next ∧ cache.Forgets next [key] := by
  simp only [onKeyEvicted]
  cases found : cache.keysTimeoutIters.lookup key with
  | none =>
    have missing := AList.lookup_eq_none.mp found
    refine ⟨cache, rfl, rfl, rfl, rfl, listed, ?_⟩
    refine (List.filter_eq_self.mpr fun node stored => decide_eq_true ?_).symm
    rw [List.mem_singleton]
    exact fun same => missing ((Indexed.mem_index_iff listed key).mpr ⟨node, stored, same⟩)
  | some it =>
    obtain ⟨entry, stored, rfl⟩ := listed.entry_of_lookup key it found
    obtain ⟨timeoutKeys, erased, nodes⟩ := cache.timeoutKeys.erase_of_mem it entry stored
    refine ⟨{ cache with
        timeoutKeys
        keysTimeoutIters := cache.keysTimeoutIters.erase (entryKey entry) },
      ?_, rfl, rfl, rfl, Indexed.erase listed (it, entry) stored nodes, ?_⟩
    · simp only [erased, Option.bind_eq_bind, Option.bind_some]
      rfl
    · rw [show timeoutKeys.nodes = _ from nodes, Indexed.others_eq listed (it, entry) stored]
      simp only [List.mem_singleton]

theorem foldlM_onKeyEvicted_forgets (keys : List Key) (listed : cache.Listed) :
    ∃ next, keys.foldlM onKeyEvicted cache = some next ∧ cache.Forgets next keys := by
  induction keys generalizing cache with
  | nil =>
    refine ⟨cache, rfl, rfl, rfl, rfl, listed, ?_⟩
    exact (List.filter_eq_self.mpr fun _ _ => decide_eq_true List.not_mem_nil).symm
  | cons key rest inductionHypothesis =>
    obtain ⟨first, evicted, forgets⟩ := onKeyEvicted_forgets listed key
    obtain ⟨next, performed, others⟩ := inductionHypothesis forgets.listed
    refine ⟨next, ?_, others.lru.trans forgets.lru, others.timeout.trans forgets.timeout,
      others.autoUpdate.trans forgets.autoUpdate, others.listed, ?_⟩
    · rw [List.foldlM_cons, evicted]
      exact performed
    · rw [others.nodes, forgets.nodes, List.filter_filter]
      refine List.filter_congr fun node _ => ?_
      rw [← Bool.decide_and]
      refine decide_eq_decide.mpr ?_
      rw [List.mem_singleton, List.mem_cons, not_or]
      exact and_comm

/-- The keys of some entries are gone everywhere. -/
structure Expires (cache next : LruTimeoutCache Key Value) (recency : Recency Key Value)
    (expired rest : List (ℕ × ℤ × TimeoutKey Key)) : Prop where
  tracks : next.Tracks (recency.retain fun key => key ∉ expired.map fun node => entryKey node.2)
  timeout : next.timeout = cache.timeout
  autoUpdate : next.autoUpdate = cache.autoUpdate
  nodes : next.timeoutKeys.nodes = rest

/-- The loop of `update` takes the expired entries out of all three structures. -/
theorem updateLoop_expires (expired rest : List (ℕ × ℤ × TimeoutKey Key))
    (tracks : cache.Tracks recency) (nodes : cache.timeoutKeys.nodes = expired ++ rest) :
    ∃ next, cache.updateLoop expired = some next ∧ cache.Expires next recency expired rest := by
  induction expired generalizing cache recency with
  | nil =>
    have everything : (recency.retain fun key => key ∉ ([] : List Key)) = recency :=
      Recency.ext rfl (List.filter_eq_self.mpr fun _ _ => decide_eq_true List.not_mem_nil)
    refine ⟨cache, rfl, ?_, rfl, rfl, nodes⟩
    rw [List.map_nil, everything]
    exact tracks
  | cons node later inductionHypothesis =>
    have stored : node ∈ cache.timeoutKeys.nodes := by
      rw [nodes]
      exact List.mem_cons_self
    obtain ⟨lru, erased, refines⟩ := LruCache.erase_refines tracks.refines (entryKey node.2)
    obtain ⟨timeoutKeys, removed, others⟩ :=
      cache.timeoutKeys.erase_of_mem node.1 node.2 stored
    have remaining : timeoutKeys.nodes = later ++ rest :=
      others.trans (without_first cache.timeoutKeys.distinct node (later ++ rest) nodes)
    have stepTracks : Tracks
        { cache with
          lru, timeoutKeys
          keysTimeoutIters := cache.keysTimeoutIters.erase (entryKey node.2) }
        (recency.remove (entryKey node.2)) := by
      refine ⟨refines, Indexed.erase tracks.listed node stored others, fun key => ?_⟩
      rw [AList.mem_erase, tracks.sameKeys, Recency.mem_keys_remove]
      exact and_comm
    obtain ⟨next, looped, expires⟩ := inductionHypothesis stepTracks remaining
    refine ⟨next, ?_, ?_, expires.timeout, expires.autoUpdate, expires.nodes⟩
    · obtain ⟨i, time, timeoutKey⟩ := node
      simp only [entryKey] at erased looped
      simp only [updateLoop, erased, removed, Option.bind_eq_bind, Option.bind_some]
      exact looped
    · have sameKeys := expires.tracks
      rw [Recency.retain_remove] at sameKeys
      simp only [List.map_cons, List.mem_cons, not_or, ← Bool.decide_and, and_comm] at sameKeys ⊢
      exact sameKeys

theorem update_expires (tracks : cache.Tracks recency) (currentTime : ℤ) :
    ∃ next, cache.update currentTime = some next ∧
      cache.Expires next recency
        (cache.timeoutKeys.nodes.takeWhile fun node => node.2.1 < currentTime)
        (cache.timeoutKeys.nodes.dropWhile fun node => node.2.1 < currentTime) :=
  updateLoop_expires _ _ tracks List.takeWhile_append_dropWhile.symm

theorem autoUpdated_tracks (tracks : cache.Tracks recency) (currentTime : ℤ) :
    ∃ next nextRecency, cache.autoUpdated currentTime = some next ∧ next.Tracks nextRecency := by
  rw [autoUpdated]
  split
  · obtain ⟨next, updated, expires⟩ := update_expires tracks currentTime
    exact ⟨next, _, updated, expires.tracks⟩
  · exact ⟨cache, recency, rfl, tracks⟩

/-- An entry with a longer timeout may keep it. -/
theorem chosenTimeout_of_mem (listed : cache.Listed) (it : ℕ) (entry : ℤ × TimeoutKey Key)
    (stored : (it, entry) ∈ cache.timeoutKeys.nodes) (duration : ℤ)
    (preserveLongerTimeout : Bool) :
    cache.chosenTimeout (entryKey entry) duration preserveLongerTimeout =
      some (if preserveLongerTimeout && entry.2.timeout > duration then entry.2.timeout
        else duration) := by
  have found := Indexed.lookup_of_mem listed (it, entry) stored
  have there := (cache.timeoutKeys.valueAt_eq_some_iff it entry).mpr stored
  simp only [chosenTimeout, found, there, Option.bind_eq_bind, Option.bind_some]
  rfl

theorem chosenTimeout_of_notMem (k : Key) (missing : k ∉ cache.keysTimeoutIters) (duration : ℤ)
    (preserveLongerTimeout : Bool) :
    cache.chosenTimeout k duration preserveLongerTimeout = some duration := by
  simp only [chosenTimeout, AList.lookup_eq_none.mpr missing]

theorem chosenTimeout_defined (listed : cache.Listed) (k : Key) (duration : ℤ)
    (preserveLongerTimeout : Bool) :
    ∃ chosen, cache.chosenTimeout k duration preserveLongerTimeout = some chosen := by
  by_cases member : k ∈ cache.keysTimeoutIters
  · obtain ⟨node, stored, rfl⟩ := (Indexed.mem_index_iff listed k).mp member
    exact ⟨_, chosenTimeout_of_mem listed node.1 node.2 stored duration preserveLongerTimeout⟩
  · exact ⟨_, chosenTimeout_of_notMem k member duration preserveLongerTimeout⟩

/-- What an insertion does after its update: the old bookkeeping of the key goes, the new deadline
comes, and then the bookkeeping of the evicted keys goes. -/
structure Inserts (updated next : LruTimeoutCache Key Value) (kept : Recency Key Value) (k : Key)
    (v : Value) (chosen now : ℤ) : Prop where
  tracks : next.Tracks (kept.insert k v)
  timeout : next.timeout = updated.timeout
  autoUpdate : next.autoUpdate = updated.autoUpdate
  nodes : ∃ cleared, updated.Forgets cleared [k] ∧
    next.timeoutKeys.nodes =
      (emplaceTimeout cleared.timeoutKeys (wrappedSum 64 now chosen) ⟨chosen, k⟩).nodes.filter
        fun node => entryKey node.2 ∉ kept.evictedBy k

theorem insertFor_inserts {updated : LruTimeoutCache Key Value} {kept : Recency Key Value}
    {chosen : ℤ} (k : Key) (v : Value) (duration : ℤ) (preserveLongerTimeout : Bool)
    (currentTime now : ℤ) (updates : cache.autoUpdated currentTime = some updated)
    (tracks : updated.Tracks kept)
    (chooses : updated.chosenTimeout k duration preserveLongerTimeout = some chosen) :
    ∃ next, cache.insertFor k v duration preserveLongerTimeout currentTime now =
        some (next, decide (k ∉ kept.keys)) ∧
      Inserts updated next kept k v chosen now := by
  obtain ⟨cleared, clears, forgets⟩ := onKeyEvicted_forgets tracks.listed k
  have refines := tracks.refines
  rw [← forgets.lru] at refines
  obtain ⟨lru, inserts, nextRefines⟩ := LruCache.insert_refines refines k v
  have clearedKeys := forgets.mem_iff tracks.listed
  have absent : k ∉ cleared.keysTimeoutIters := fun member =>
    ((clearedKeys k).mp member).2 List.mem_cons_self
  -- the new deadline is listed before the base class evicts
  have listed : Listed
      { cleared with
        lru
        timeoutKeys := emplaceTimeout cleared.timeoutKeys (wrappedSum 64 now chosen) ⟨chosen, k⟩
        keysTimeoutIters := emplace cleared.keysTimeoutIters k cleared.timeoutKeys.next } := by
    show Indexed entryKey _ (emplace _ _ _)
    rw [emplace, if_neg absent]
    exact Indexed.place forgets.listed _ (wrappedSum 64 now chosen, ⟨chosen, k⟩) absent fun node =>
      cleared.timeoutKeys.mem_place _ _ node
  obtain ⟨next, evicts, evicted⟩ := foldlM_onKeyEvicted_forgets (kept.evictedBy k) listed
  refine ⟨next, ?_, ⟨evicted.lru ▸ nextRefines, evicted.listed, fun key => ?_⟩,
    evicted.timeout.trans forgets.timeout, evicted.autoUpdate.trans forgets.autoUpdate,
    cleared, forgets, evicted.nodes⟩
  · simp only [insertFor, updates, chooses, clears, inserts, evicts, Option.bind_eq_bind,
      Option.bind_some]
    rfl
  · have notEvicted : k ∉ kept.evictedBy k := fun evicted =>
      (kept.mem_keys_of_evictedBy k k evicted).2 rfl
    rw [evicted.mem_iff listed, Recency.mem_keys_insert]
    show key ∈ emplace _ _ _ ∧ _ ↔ _
    rw [emplace, if_neg absent, AList.mem_insert, clearedKeys, List.mem_singleton,
      tracks.sameKeys]
    by_cases same : key = k
    · subst same
      exact ⟨fun _ => Or.inl rfl, fun _ => ⟨Or.inl rfl, notEvicted⟩⟩
    · rw [or_iff_right same, or_iff_right same, and_iff_left same]

theorem insertFor_tracks (tracks : cache.Tracks recency) (k : Key) (v : Value) (duration : ℤ)
    (preserveLongerTimeout : Bool) (currentTime now : ℤ) :
    ∃ next isNew nextRecency,
      cache.insertFor k v duration preserveLongerTimeout currentTime now = some (next, isNew) ∧
      next.Tracks nextRecency := by
  obtain ⟨updated, kept, updates, keptTracks⟩ := autoUpdated_tracks tracks currentTime
  obtain ⟨chosen, chooses⟩ :=
    chosenTimeout_defined keptTracks.listed k duration preserveLongerTimeout
  obtain ⟨next, performed, inserts⟩ := insertFor_inserts k v duration preserveLongerTimeout
    currentTime now updates keptTracks chooses
  exact ⟨next, _, _, performed, inserts.tracks⟩

/-- `get` of a key that is not there only updates. -/
theorem get_misses {updated : LruTimeoutCache Key Value} {kept : Recency Key Value} (k : Key)
    (currentTime now : ℤ) (updates : cache.autoUpdated currentTime = some updated)
    (tracks : updated.Tracks kept) (missing : k ∉ kept.keys) :
    cache.get k currentTime now = some (updated, none) := by
  have missed := LruCache.get_of_notMem tracks.refines k missing
  simp only [get, updates, missed, Option.bind_eq_bind, Option.bind_some]
  rfl

/-- What `get` of a key does after its update: the entry becomes the first, and its deadline is
renewed. -/
structure Renews (updated next : LruTimeoutCache Key Value) (kept : Recency Key Value)
    (value : Value) (keyi : ℕ) (entry : ℤ × TimeoutKey Key) (now : ℤ) : Prop where
  tracks : next.Tracks (kept.insert (entryKey entry) value)
  timeout : next.timeout = updated.timeout
  autoUpdate : next.autoUpdate = updated.autoUpdate
  nodes : next.timeoutKeys.nodes =
    (emplaceTimeout updated.timeoutKeys (wrappedSum 64 now entry.2.timeout) entry.2).others keyi

theorem get_renews {updated : LruTimeoutCache Key Value} {kept : Recency Key Value}
    (value : Value) (keyi : ℕ) (entry : ℤ × TimeoutKey Key) (currentTime now : ℤ)
    (updates : cache.autoUpdated currentTime = some updated) (tracks : updated.Tracks kept)
    (found : kept.find (entryKey entry) = some value)
    (stored : (keyi, entry) ∈ updated.timeoutKeys.nodes) :
    ∃ next, cache.get (entryKey entry) currentTime now = some (next, some (entryKey entry)) ∧
      Renews updated next kept value keyi entry now := by
  have member := kept.mem_keys_of_find _ value found
  obtain ⟨lru, gets, refines⟩ := LruCache.get_refines tracks.refines _ value found
  have looked := Indexed.lookup_of_mem tracks.listed (keyi, entry) stored
  have there := (updated.timeoutKeys.valueAt_eq_some_iff keyi entry).mpr stored
  obtain ⟨timeoutKeys, erased, nodes⟩ :=
    (emplaceTimeout updated.timeoutKeys (wrappedSum 64 now entry.2.timeout) entry.2).erase_of_mem
      keyi entry
      ((updated.timeoutKeys.mem_place _ _ _).mpr (Or.inr stored))
  refine ⟨{ updated with
      lru, timeoutKeys
      keysTimeoutIters :=
        updated.keysTimeoutIters.insert (entryKey entry) updated.timeoutKeys.next },
    ?_, ⟨refines, ?_, fun key => ?_⟩, rfl, rfl, nodes⟩
  · simp only [get, updates, gets, looked, there, erased, Option.bind_eq_bind, Option.bind_some]
    rfl
  · exact Indexed.replace tracks.listed (keyi, entry) stored _
      (wrappedSum 64 now entry.2.timeout, entry.2) rfl fun node => by
        rw [nodes]
        exact updated.timeoutKeys.mem_others_place _ _ (keyi, entry) stored node
  · rw [AList.mem_insert, tracks.sameKeys, kept.mem_keys_insert_of_mem _ _ value member]
    exact or_iff_right_of_imp fun same => same ▸ member

theorem get_tracks (tracks : cache.Tracks recency) (k : Key) (currentTime now : ℤ) :
    ∃ next accessor nextRecency, cache.get k currentTime now = some (next, accessor) ∧
      next.Tracks nextRecency ∧ ∀ key, accessor = some key → key ∈ nextRecency.keys := by
  obtain ⟨updated, kept, updates, keptTracks⟩ := autoUpdated_tracks tracks currentTime
  cases found : kept.find k with
  | none =>
    have missing := (kept.find_eq_none_iff k).mp found
    exact ⟨updated, none, kept, get_misses k currentTime now updates keptTracks missing,
      keptTracks, fun _ impossible => nomatch impossible⟩
  | some value =>
    have member := kept.mem_keys_of_find k value found
    obtain ⟨node, stored, rfl⟩ :=
      (Indexed.mem_index_iff keptTracks.listed k).mp ((keptTracks.sameKeys k).mpr member)
    obtain ⟨next, performed, renews⟩ :=
      get_renews value node.1 node.2 currentTime now updates keptTracks found stored
    refine ⟨next, _, _, performed, renews.tracks, ?_⟩
    rintro _ ⟨⟩
    exact (kept.mem_keys_insert_of_mem _ _ value member).mpr member

/-- What `erase` does after its update. -/
structure Erases (updated next : LruTimeoutCache Key Value) (kept : Recency Key Value) (k : Key) :
    Prop where
  tracks : next.Tracks (kept.remove k)
  timeout : next.timeout = updated.timeout
  autoUpdate : next.autoUpdate = updated.autoUpdate
  nodes : next.timeoutKeys.nodes =
    updated.timeoutKeys.nodes.filter fun node => entryKey node.2 ∉ [k]

theorem erase_erases {updated : LruTimeoutCache Key Value} {kept : Recency Key Value} (k : Key)
    (currentTime : ℤ) (updates : cache.autoUpdated currentTime = some updated)
    (tracks : updated.Tracks kept) :
    ∃ next, cache.erase k currentTime = some next ∧ Erases updated next kept k := by
  obtain ⟨cleared, clears, forgets⟩ := onKeyEvicted_forgets tracks.listed k
  have refines := tracks.refines
  rw [← forgets.lru] at refines
  obtain ⟨lru, erases, nextRefines⟩ := LruCache.erase_refines refines k
  refine ⟨{ cleared with lru }, ?_, ⟨nextRefines, forgets.listed, fun key => ?_⟩,
    forgets.timeout, forgets.autoUpdate, forgets.nodes⟩
  · simp only [erase, updates, clears, erases, Option.bind_eq_bind, Option.bind_some]
    rfl
  · rw [forgets.mem_iff tracks.listed, tracks.sameKeys, Recency.mem_keys_remove,
      List.mem_singleton]

theorem erase_tracks (tracks : cache.Tracks recency) (k : Key) (currentTime : ℤ) :
    ∃ next nextRecency, cache.erase k currentTime = some next ∧ next.Tracks nextRecency := by
  obtain ⟨updated, kept, updates, keptTracks⟩ := autoUpdated_tracks tracks currentTime
  obtain ⟨next, performed, erases⟩ := erase_erases k currentTime updates keptTracks
  exact ⟨next, _, performed, erases.tracks⟩

theorem new_tracks (capacity : ℕ) (positive : 0 < capacity) (timeout : ℤ) (autoUpdate : Bool) :
    (new capacity timeout autoUpdate : LruTimeoutCache Key Value).Tracks
      (Recency.new capacity positive) :=
  ⟨⟨rfl, rfl, Indexed.nil rfl⟩, Indexed.nil rfl,
    fun key => iff_of_false (AList.notMem_empty key) List.not_mem_nil⟩

theorem clear_tracks (tracks : cache.Tracks recency) : cache.clear.Tracks recency.clear :=
  ⟨LruCache.clear_refines tracks.refines, Indexed.nil rfl,
    fun key => iff_of_false (AList.notMem_empty key) List.not_mem_nil⟩

theorem makeLru_tracks (tracks : cache.Tracks recency) (key : Key) (member : key ∈ recency.keys) :
    ∃ next nextRecency, cache.makeLru (some key) = some next ∧ next.Tracks nextRecency ∧
      ∀ other, other ∈ nextRecency.keys ↔ other ∈ recency.keys := by
  obtain ⟨value, found⟩ := recency.find_of_mem_keys key member
  obtain ⟨lru, demoted, performed, -, refines, sameKeys⟩ :=
    LruCache.makeLru_refines tracks.refines key value found
  refine ⟨{ cache with lru }, demoted, ?_, ⟨refines, tracks.listed, fun other => ?_⟩, sameKeys⟩
  · simp only [makeLru, performed, Option.bind_eq_bind, Option.bind_some]
    rfl
  · exact (tracks.sameKeys other).trans (sameKeys other).symm

theorem setCapacity_tracks (tracks : cache.Tracks recency) (maxSize : ℕ) (positive : 0 < maxSize)
    (fits : cache.lru.size ≤ maxSize) :
    ∃ next nextRecency, cache.setCapacity maxSize = some next ∧ next.Tracks nextRecency := by
  obtain ⟨lru, performed, refines⟩ := LruCache.setCapacity_refines tracks.refines maxSize positive
  rw [tracks.refines.size_eq] at fits
  refine ⟨{ cache with lru }, recency.setCapacity maxSize positive, ?_, refines, tracks.listed,
    fun key => ?_⟩
  · simp only [setCapacity, performed, Option.bind_eq_bind, Option.bind_some]
    rfl
  · rw [tracks.sameKeys, Recency.keys, Recency.keys]
    show _ ↔ key ∈ (recency.entries.take maxSize).map Prod.fst
    rw [List.take_of_length_le fits]

/-! ### Complete bookkeeping -/

/-- The keys of the base class, of the map of iterators and of the multimap are the same, each
once in the multimap, at the node its iterator points to. -/
structure Bookkept (cache : LruTimeoutCache Key Value) : Prop where
  mapped : ∀ key, key ∈ cache.lru.mappedValues ↔ key ∈ cache.keysTimeoutIters
  listed : ∀ key, key ∈ cache.keysTimeoutIters ↔ key ∈ cache.timeoutKeys.values.map entryKey
  once : (cache.timeoutKeys.values.map entryKey).Nodup
  pointed : ∀ key it, cache.keysTimeoutIters.lookup key = some it →
    ∃ entry, (it, entry) ∈ cache.timeoutKeys.nodes ∧ entryKey entry = key

theorem Tracks.bookkept (tracks : cache.Tracks recency) : cache.Bookkept where
  mapped key := (tracks.refines.mem_keys_iff key).trans (tracks.sameKeys key).symm
  listed key := by
    rw [AList.mem_keys]
    exact (Indexed.keys_perm tracks.listed).mem_iff
  once := Indexed.keys_nodup tracks.listed
  pointed key it found := tracks.listed.entry_of_lookup key it found

theorem setCapacity_leaks (tracks : cache.Tracks recency) (maxSize : ℕ) (positive : 0 < maxSize)
    (smaller : maxSize < cache.lru.size) (next : LruTimeoutCache Key Value)
    (performed : cache.setCapacity maxSize = some next) : ¬next.Bookkept := by
  obtain ⟨lru, shrunk, refines⟩ := LruCache.setCapacity_refines tracks.refines maxSize positive
  simp only [setCapacity, shrunk, Option.bind_eq_bind, Option.bind_some] at performed
  obtain rfl := Option.some.inj performed
  rw [tracks.refines.size_eq] at smaller
  -- the first entry that is dropped
  have dropped : recency.entries.drop maxSize ≠ [] := by
    rw [ne_eq, List.drop_eq_nil_iff]
    exact not_le.mpr smaller
  obtain ⟨entry, rest, first⟩ := List.exists_cons_of_ne_nil dropped
  have distinct := recency.distinct
  rw [← List.take_append_drop maxSize recency.entries, List.map_append, first,
    List.map_cons] at distinct
  have gone : entry.1 ∉ (recency.entries.take maxSize).map Prod.fst := fun kept =>
    List.disjoint_of_nodup_append distinct kept List.mem_cons_self
  have stored : entry ∈ recency.entries := by
    refine List.mem_of_mem_drop (i := maxSize) ?_
    rw [first]
    exact List.mem_cons_self
  have tracked := (tracks.sameKeys entry.1).mpr (List.mem_map_of_mem stored)
  exact fun bookkept => gone ((refines.mem_keys_iff entry.1).mp ((bookkept.mapped _).mpr tracked))

end LruTimeoutCache

/-! ### Whole runs -/

variable {Key Value : Type} [DecidableEq Key]

/-- The public operations, each with the readings of the clock it makes. -/
inductive TimeoutCall (Key Value : Type) where
  | insert (k : Key) (v : Value) (currentTime now : ℤ)
  | insertFor (k : Key) (v : Value) (duration : ℤ) (preserveLongerTimeout : Bool)
      (currentTime now : ℤ)
  | get (k : Key) (currentTime now : ℤ)
  | erase (k : Key) (currentTime : ℤ)
  | clear
  | update (currentTime : ℤ)
  | makeLru
  | setCapacity (maxSize : ℕ)

/-- A cache with the accessor of the last `get`, if it may still be used. -/
structure TimeoutWorld (Key Value : Type) where
  cache : LruTimeoutCache Key Value
  accessor : Option Key := none

/-- One call. -/
def timeoutStep (world : TimeoutWorld Key Value) :
    TimeoutCall Key Value → Option (TimeoutWorld Key Value)
  | .insert k v currentTime now =>
    (world.cache.insert k v currentTime now).map fun outcome => ⟨outcome.1, none⟩
  | .insertFor k v duration preserveLongerTimeout currentTime now =>
    (world.cache.insertFor k v duration preserveLongerTimeout currentTime now).map
      fun outcome => ⟨outcome.1, none⟩
  | .get k currentTime now =>
    (world.cache.get k currentTime now).map fun outcome => ⟨outcome.1, outcome.2⟩
  | .erase k currentTime => (world.cache.erase k currentTime).map fun next => ⟨next, none⟩
  | .clear => some ⟨world.cache.clear, none⟩
  | .update currentTime => (world.cache.update currentTime).map fun next => ⟨next, none⟩
  | .makeLru => (world.cache.makeLru world.accessor).map fun next => ⟨next, world.accessor⟩
  | .setCapacity maxSize => (world.cache.setCapacity maxSize).map fun next => ⟨next, none⟩

/-- `make_lru` takes an accessor a `get` has just returned, and no capacity is set to 0. -/
def TimeoutAllowed (world : TimeoutWorld Key Value) : TimeoutCall Key Value → Prop
  | .makeLru => world.accessor.isSome = true
  | .setCapacity maxSize => 0 < maxSize
  | _ => True

/-- No capacity is set below the number of entries. -/
def NotBelowSize (world : TimeoutWorld Key Value) : TimeoutCall Key Value → Prop
  | .setCapacity maxSize => world.cache.lru.size ≤ maxSize
  | _ => True

/-- The bookkeeping is about the keys of the base class, and an accessor is for one of them. -/
def Tracked (world : TimeoutWorld Key Value) : Prop :=
  ∃ recency, world.cache.Tracks recency ∧
    ∀ key, world.accessor = some key → key ∈ recency.keys

theorem tracked_none {cache : LruTimeoutCache Key Value} {recency : Recency Key Value}
    (tracks : cache.Tracks recency) : Tracked ⟨cache, none⟩ :=
  ⟨recency, tracks, fun _ impossible => nomatch impossible⟩

/-- A call that does not cut the capacity below the size returns and keeps the bookkeeping. -/
theorem timeoutStep_tracked (world : TimeoutWorld Key Value) (call : TimeoutCall Key Value)
    (tracked : Tracked world) (allowed : TimeoutAllowed world call)
    (notBelow : NotBelowSize world call) :
    ∃ next, timeoutStep world call = some next ∧ Tracked next := by
  obtain ⟨recency, tracks, usable⟩ := tracked
  cases call with
  | insert k v currentTime now =>
    obtain ⟨next, isNew, nextRecency, performed, nextTracks⟩ :=
      LruTimeoutCache.insertFor_tracks tracks k v world.cache.timeout false currentTime now
    refine ⟨⟨next, none⟩, ?_, tracked_none nextTracks⟩
    rw [timeoutStep, LruTimeoutCache.insert, performed, Option.map_some]
  | insertFor k v duration preserveLongerTimeout currentTime now =>
    obtain ⟨next, isNew, nextRecency, performed, nextTracks⟩ :=
      LruTimeoutCache.insertFor_tracks tracks k v duration preserveLongerTimeout currentTime now
    refine ⟨⟨next, none⟩, ?_, tracked_none nextTracks⟩
    rw [timeoutStep, performed, Option.map_some]
  | get k currentTime now =>
    obtain ⟨next, accessor, nextRecency, performed, nextTracks, nextUsable⟩ :=
      LruTimeoutCache.get_tracks tracks k currentTime now
    refine ⟨⟨next, accessor⟩, ?_, nextRecency, nextTracks, nextUsable⟩
    rw [timeoutStep, performed, Option.map_some]
  | erase k currentTime =>
    obtain ⟨next, nextRecency, performed, nextTracks⟩ :=
      LruTimeoutCache.erase_tracks tracks k currentTime
    refine ⟨⟨next, none⟩, ?_, tracked_none nextTracks⟩
    rw [timeoutStep, performed, Option.map_some]
  | clear => exact ⟨_, rfl, tracked_none (LruTimeoutCache.clear_tracks tracks)⟩
  | update currentTime =>
    obtain ⟨next, performed, expires⟩ := LruTimeoutCache.update_expires tracks currentTime
    refine ⟨⟨next, none⟩, ?_, tracked_none expires.tracks⟩
    rw [timeoutStep, performed, Option.map_some]
  | makeLru =>
    obtain ⟨key, held⟩ := Option.isSome_iff_exists.mp allowed
    obtain ⟨next, nextRecency, performed, nextTracks, sameKeys⟩ :=
      LruTimeoutCache.makeLru_tracks tracks key (usable key held)
    refine ⟨⟨next, world.accessor⟩, ?_, nextRecency, nextTracks, fun other same => ?_⟩
    · rw [timeoutStep, held, performed, Option.map_some]
    · exact (sameKeys other).mpr (usable other same)
  | setCapacity maxSize =>
    obtain ⟨next, nextRecency, performed, nextTracks⟩ :=
      LruTimeoutCache.setCapacity_tracks tracks maxSize allowed notBelow
    refine ⟨⟨next, none⟩, ?_, tracked_none nextTracks⟩
    rw [timeoutStep, performed, Option.map_some]

/-- A call that cuts the capacity below the size leaks. -/
theorem timeoutStep_leaks (world : TimeoutWorld Key Value) (call : TimeoutCall Key Value)
    (next : TimeoutWorld Key Value) (tracked : Tracked world)
    (allowed : TimeoutAllowed world call) (below : ¬NotBelowSize world call)
    (stepped : timeoutStep world call = some next) : ¬next.cache.Bookkept := by
  obtain ⟨recency, tracks, -⟩ := tracked
  cases call with
  | setCapacity maxSize =>
    obtain ⟨cache, performed, rfl⟩ := Option.map_eq_some_iff.mp stepped
    exact LruTimeoutCache.setCapacity_leaks tracks maxSize allowed (not_le.mp below) cache performed
  | _ => exact absurd trivial below

/-- For every sequence of calls on a new cache with a positive capacity, and all readings of the
clock: the calls return and the bookkeeping is complete after each of them, exactly when no
capacity is set below the number of entries. -/
theorem timeoutCache_bookkept_iff (capacity : ℕ) (positive : 0 < capacity) (timeout : ℤ)
    (autoUpdate : Bool) (calls : List (TimeoutCall Key Value))
    (allowed : Along timeoutStep TimeoutAllowed
      ⟨LruTimeoutCache.new capacity timeout autoUpdate, none⟩ calls) :
    (∀ count, ∃ world,
        run timeoutStep ⟨LruTimeoutCache.new capacity timeout autoUpdate, none⟩
          (calls.take count) = some world ∧ world.cache.Bookkept) ↔
      Along timeoutStep NotBelowSize ⟨LruTimeoutCache.new capacity timeout autoUpdate, none⟩
        calls := by
  have start : Tracked
      (⟨LruTimeoutCache.new capacity timeout autoUpdate, none⟩ : TimeoutWorld Key Value) :=
    tracked_none (LruTimeoutCache.new_tracks capacity positive timeout autoUpdate)
  exact run_throughout_iff (fun world ⟨_, tracks, _⟩ => tracks.bookkept) timeoutStep_tracked
    timeoutStep_leaks start allowed

/-- A run with an eviction, a demotion and a larger capacity keeps complete books. -/
theorem timeoutCache_bookkept_iff_larger :
    ∃ world : TimeoutWorld ℕ ℕ,
      run timeoutStep ⟨LruTimeoutCache.new 2 10 true, none⟩
        [.insert 1 10 0 0, .insert 2 20 1 1, .get 2 2 2, .makeLru, .insert 3 30 3 3,
          .setCapacity 5] = some world ∧
      world.cache.Bookkept := by
  refine (timeoutCache_bookkept_iff 2 (by decide) 10 true
    [.insert 1 10 0 0, .insert 2 20 1 1, .get 2 2 2, .makeLru, .insert 3 30 3 3, .setCapacity 5]
    ?_).mpr ?_ 6
  · refine .cons rfl trivial ?_
    refine .cons rfl trivial ?_
    refine .cons rfl trivial ?_
    refine .cons rfl rfl ?_
    refine .cons rfl trivial ?_
    exact .cons rfl (Nat.succ_pos 4) trivial
  · refine .cons rfl trivial ?_
    refine .cons rfl trivial ?_
    refine .cons rfl trivial ?_
    refine .cons rfl trivial ?_
    refine .cons rfl trivial ?_
    exact .cons rfl (Nat.le_of_ble_eq_true rfl) trivial

/-- Two entries and a capacity of one: the dropped key stays in the map of iterators and in the
multimap. -/
theorem loweredCapacity_leaks :
    ∃ world : TimeoutWorld ℕ ℕ,
      run timeoutStep ⟨LruTimeoutCache.new 2 10 true, none⟩
        [.insert 1 10 0 0, .insert 2 20 1 1, .setCapacity 1] = some world ∧
      world.cache.lru.mappedValues.keys = [2] ∧ world.cache.keysTimeoutIters.keys = [2, 1] ∧
      world.cache.timeoutKeys.values = [(10, ⟨10, 1⟩), (11, ⟨10, 2⟩)] ∧
      ¬world.cache.Bookkept := by
  refine ⟨_, rfl, rfl, rfl, rfl, fun bookkept => ?_⟩
  have tracked := (bookkept.mapped 1).mpr (by decide)
  exact absurd tracked (by decide)

end NativeLibs.Cache
