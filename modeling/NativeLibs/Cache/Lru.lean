/-
This file embeds `LruCache` of `common/cache.h`: a `std::list` of key-value nodes
with the most recently used in front, and a map from the keys to the iterators
of their nodes. An operation that follows an iterator to a node that is gone,
takes the last node of an empty list, or fails its assertion has no result.

The cache is then compared with a bounded recency list. A cache refines such a
list when its nodes spell the entries and the map is the index of the nodes, and
every call keeps that up: whatever the calls, the cache answers what the recency
list answers, and evicts what that evicts.
-/

import NativeLibs.Library.NodeList
import NativeLibs.Library.Recency
import NativeLibs.Library.Runs

namespace NativeLibs.Cache

open Library

/-- `LruCache`. -/
structure LruCache (Key Value : Type) where
  capacity : ℕ
  keyValues : NodeList (Key × Value)
  mappedValues : AList fun _ : Key => ℕ

namespace LruCache

variable {Key Value : Type} [DecidableEq Key]

/-! ### The operations -/

/-- `LruCache::size`. -/
def size (cache : LruCache Key Value) : ℕ := cache.mappedValues.keys.length

/-- `LruCache::max_size`. -/
def maxSize (cache : LruCache Key Value) : ℕ := cache.capacity

/-- The two lines that evict: the map entry of the last node goes, and then the node. The key is
returned with the cache. -/
def dropBack (cache : LruCache Key Value) : Option (LruCache Key Value × Key) := do
  let back ← cache.keyValues.back
  let keyValues ← cache.keyValues.popBack
  return ({ cache with keyValues, mappedValues := cache.mappedValues.erase back.1 }, back.1)

/-- The part of `LruCache::insert` that evicts from a full cache. -/
def makeRoom (cache : LruCache Key Value) : Option (LruCache Key Value × List Key) :=
  if cache.keyValues.nodes.length = cache.capacity then
    cache.dropBack.map fun dropped => (dropped.1, [dropped.2])
  else some (cache, [])

/-- `LruCache::insert`, with the keys handed to `on_key_evicted`. -/
def insert (cache : LruCache Key Value) (k : Key) (v : Value) :
    Option (LruCache Key Value × Bool × List Key) :=
  match cache.mappedValues.lookup k with
  | some node => do
    let spliced ← cache.keyValues.moveFront node
    let first ← spliced.front
    let keyValues ← spliced.modify first fun entry => (entry.1, v)
    return ({ cache with keyValues, mappedValues := cache.mappedValues.insert k first }, false, [])
  | none =>
    if cache.capacity = 0 then none  -- `assert(m_capacity > 0)`
    else do
      let (room, evicted) ← cache.makeRoom
      let keyValues := room.keyValues.pushFront (k, v)
      let first ← keyValues.front
      return ({ room with keyValues, mappedValues := emplace room.mappedValues k first }, true,
        evicted)

/-- `LruCache::get`. An accessor is null or the map entry of a key. -/
def get (cache : LruCache Key Value) (k : Key) : Option (LruCache Key Value × Option Key) :=
  match cache.mappedValues.lookup k with
  | none => some (cache, none)
  | some node => do
    let keyValues ← cache.keyValues.moveFront node
    return ({ cache with keyValues }, some k)

/-- `Accessor::operator*` of an accessor that is not null. -/
def read (cache : LruCache Key Value) (accessor : Key) : Option Value := do
  let node ← cache.mappedValues.lookup accessor
  let entry ← cache.keyValues.valueAt node
  return entry.2

/-- `LruCache::make_lru`. A null accessor cannot be followed. -/
def makeLru (cache : LruCache Key Value) (accessor : Option Key) :
    Option (LruCache Key Value) := do
  let key ← accessor
  let node ← cache.mappedValues.lookup key
  let keyValues ← cache.keyValues.moveBack node
  return { cache with keyValues }

/-- The entries `LruCache::iterate_values` passes to a callback, up to the first for which it
returns false. -/
def iterateValues (f : Key → Value → Bool) : List (Key × Value) → List (Key × Value)
  | [] => []
  | entry :: rest => entry :: if f entry.1 entry.2 then iterateValues f rest else []

/-- `LruCache::erase`. -/
def erase (cache : LruCache Key Value) (k : Key) : Option (LruCache Key Value) :=
  match cache.mappedValues.lookup k with
  | none => some cache
  | some node => do
    let keyValues ← cache.keyValues.erase node
    return { cache with keyValues, mappedValues := cache.mappedValues.erase k }

/-- `LruCache::clear`. -/
def clear (cache : LruCache Key Value) : LruCache Key Value :=
  { cache with keyValues := cache.keyValues.clear, mappedValues := ∅ }

/-- The loop of `LruCache::set_capacity`, with the keys it drops. -/
def dropBacks : ℕ → LruCache Key Value → Option (LruCache Key Value × List Key)
  | 0, cache => some (cache, [])
  | count + 1, cache => do
    let (shorter, key) ← cache.dropBack
    let (rest, keys) ← dropBacks count shorter
    return (rest, key :: keys)

/-- `LruCache::set_capacity`, with the keys it drops. -/
def setCapacity (cache : LruCache Key Value) (maxSize : ℕ) :
    Option (LruCache Key Value × List Key) := do
  let (kept, keys) ←
    if maxSize < cache.size then dropBacks (cache.size - maxSize) cache else some (cache, [])
  return ({ kept with capacity := maxSize }, keys)

/-- The constructor: `set_capacity` on an empty cache. -/
def new (maxSize : ℕ) : LruCache Key Value := ⟨maxSize, NodeList.empty, ∅⟩

theorem setCapacity_new (maxSize : ℕ) :
    setCapacity (new 0 : LruCache Key Value) maxSize = some (new maxSize, []) := rfl

/-! ### One operation beside the recency list -/

/-- A cache stands for a recency list: its nodes spell the entries, and its map is their index. -/
structure Refines (cache : LruCache Key Value) (recency : Recency Key Value) : Prop where
  capacity : cache.capacity = recency.capacity
  entries : cache.keyValues.values = recency.entries
  indexed : Indexed Prod.fst cache.keyValues cache.mappedValues

variable {cache : LruCache Key Value} {recency : Recency Key Value}

theorem Refines.size_eq (refines : Refines cache recency) :
    cache.size = recency.entries.length := by
  rw [size, refines.indexed.keys_perm.length_eq, List.length_map, refines.entries]

theorem Refines.length_eq (refines : Refines cache recency) :
    cache.keyValues.nodes.length = recency.entries.length := by
  rw [← refines.entries, NodeList.values, List.length_map]

theorem Refines.mem_keys_iff (refines : Refines cache recency) (key : Key) :
    key ∈ cache.mappedValues ↔ key ∈ recency.keys := by
  rw [AList.mem_keys, refines.indexed.keys_perm.mem_iff, refines.entries, Recency.keys]

theorem Refines.node_of_find (refines : Refines cache recency) (key : Key) (value : Value)
    (found : recency.find key = some value) :
    ∃ handle, (handle, (key, value)) ∈ cache.keyValues.nodes ∧
      cache.mappedValues.lookup key = some handle := by
  have member := (recency.find_eq_some_iff key value).mp found
  rw [← refines.entries, NodeList.values] at member
  obtain ⟨node, stored, same⟩ := List.mem_map.mp member
  obtain ⟨handle, entry⟩ := node
  obtain rfl : entry = (key, value) := same
  exact ⟨handle, stored, refines.indexed.lookup_of_mem _ stored⟩

theorem Refines.lookup_of_notMem (refines : Refines cache recency) (key : Key)
    (missing : key ∉ recency.keys) : cache.mappedValues.lookup key = none := by
  rw [AList.lookup_eq_none, refines.mem_keys_iff]
  exact missing

theorem Refines.values_others (refines : Refines cache recency) (handle : ℕ) (key : Key)
    (value : Value) (stored : (handle, (key, value)) ∈ cache.keyValues.nodes) :
    (cache.keyValues.others handle).map Prod.snd = without recency.entries key := by
  rw [← refines.entries]
  exact refines.indexed.values_others (handle, (key, value)) stored

/-- A node that was spliced to the front is there in front of the others. -/
theorem Refines.moveFront (refines : Refines cache recency) (handle : ℕ) (key : Key)
    (value : Value) (stored : (handle, (key, value)) ∈ cache.keyValues.nodes)
    {next : NodeList (Key × Value)}
    (nodes : next.nodes = (handle, (key, value)) :: cache.keyValues.others handle) :
    next.values = (key, value) :: without recency.entries key ∧
      Indexed Prod.fst next cache.mappedValues := by
  refine ⟨?_, refines.indexed.moveFront (handle, (key, value)) stored nodes⟩
  rw [NodeList.values, nodes, List.map_cons, refines.values_others handle key value stored]

theorem get_refines (refines : Refines cache recency) (key : Key) (value : Value)
    (found : recency.find key = some value) :
    ∃ next, cache.get key = some (next, some key) ∧ Refines next (recency.insert key value) := by
  obtain ⟨handle, stored, entry⟩ := refines.node_of_find key value found
  obtain ⟨spliced, moved, nodes⟩ := cache.keyValues.moveFront_of_mem handle _ stored
  obtain ⟨values, indexed⟩ := refines.moveFront handle key value stored nodes
  refine ⟨{ cache with keyValues := spliced }, ?_, refines.capacity, ?_, indexed⟩
  · simp only [get, entry, moved]
    rfl
  · rw [recency.insert_of_mem key value (recency.mem_keys_of_find key value found)]
    exact values

theorem get_of_notMem (refines : Refines cache recency) (key : Key)
    (missing : key ∉ recency.keys) : cache.get key = some (cache, none) := by
  simp only [get, refines.lookup_of_notMem key missing]

theorem read_refines (refines : Refines cache recency) (key : Key) (value : Value)
    (found : recency.find key = some value) : cache.read key = some value := by
  obtain ⟨handle, stored, entry⟩ := refines.node_of_find key value found
  have there := (cache.keyValues.valueAt_eq_some_iff handle _).mpr stored
  simp only [read, entry, there, Option.bind_eq_bind, Option.bind_some]
  rfl

theorem makeLru_refines (refines : Refines cache recency) (key : Key) (value : Value)
    (found : recency.find key = some value) :
    ∃ next demoted, cache.makeLru (some key) = some next ∧ recency.demote key = some demoted ∧
      Refines next demoted ∧ ∀ other, other ∈ demoted.keys ↔ other ∈ recency.keys := by
  obtain ⟨handle, stored, entry⟩ := refines.node_of_find key value found
  obtain ⟨spliced, moved, nodes⟩ := cache.keyValues.moveBack_of_mem handle _ stored
  obtain ⟨front, -, frontNodes⟩ := cache.keyValues.moveFront_of_mem handle _ stored
  obtain ⟨demoted, performed, capacity, entries, sameKeys⟩ :=
    recency.demote_of_find key value found
  -- the same nodes as if the node had gone to the front
  have indexed := (refines.moveFront handle key value stored frontNodes).2
  have sameNodes : ∀ node, node ∈ spliced.nodes ↔ node ∈ front.nodes := by
    intro node
    rw [nodes, frontNodes]
    exact (List.perm_append_singleton _ _).mem_iff
  refine ⟨{ cache with keyValues := spliced }, demoted, ?_, performed,
    ⟨refines.capacity.trans capacity.symm, ?_, indexed.congr sameNodes fun _ => rfl⟩, sameKeys⟩
  · simp only [makeLru, entry, moved, Option.bind_eq_bind, Option.bind_some]
    rfl
  · rw [entries, ← refines.values_others handle key value stored]
    show spliced.nodes.map Prod.snd = _
    rw [nodes, List.map_append, List.map_singleton]

theorem erase_refines (refines : Refines cache recency) (key : Key) :
    ∃ next, cache.erase key = some next ∧ Refines next (recency.remove key) := by
  cases found : recency.find key with
  | none =>
    have missing := (recency.find_eq_none_iff key).mp found
    refine ⟨cache, ?_, refines.capacity, ?_, refines.indexed⟩
    · simp only [erase, refines.lookup_of_notMem key missing]
    · exact refines.entries.trans (without_of_notMem recency.entries key missing).symm
  | some value =>
    obtain ⟨handle, stored, entry⟩ := refines.node_of_find key value found
    obtain ⟨rest, erased, nodes⟩ := cache.keyValues.erase_of_mem handle _ stored
    refine ⟨{ cache with keyValues := rest, mappedValues := cache.mappedValues.erase key }, ?_,
      refines.capacity, ?_, refines.indexed.erase (handle, (key, value)) stored nodes⟩
    · simp only [erase, entry, erased]
      rfl
    · show rest.nodes.map Prod.snd = _
      rw [nodes, refines.values_others handle key value stored]
      rfl

theorem clear_refines (refines : Refines cache recency) : Refines cache.clear recency.clear :=
  ⟨refines.capacity, rfl, Indexed.nil rfl⟩

/-! ### Eviction -/

/-- Dropping the last node keeps the index. -/
theorem dropBack_spec (indexed : Indexed Prod.fst cache.keyValues cache.mappedValues)
    (earlier : List (ℕ × Key × Value)) (last : ℕ × Key × Value)
    (nodes : cache.keyValues.nodes = earlier ++ [last]) :
    ∃ next, cache.dropBack = some (next, last.2.1) ∧ next.capacity = cache.capacity ∧
      next.keyValues.nodes = earlier ∧ Indexed Prod.fst next.keyValues next.mappedValues := by
  have nonempty : cache.keyValues.nodes ≠ [] := by
    rw [nodes]
    exact List.concat_ne_nil last earlier
  have back : cache.keyValues.back = some last.2 := by
    rw [NodeList.back, nodes, List.getLast?_concat, Option.map_some]
  obtain ⟨rest, popped, restNodes⟩ := cache.keyValues.popBack_of_ne_nil nonempty
  rw [nodes, List.dropLast_concat] at restNodes
  refine ⟨{ cache with keyValues := rest, mappedValues := cache.mappedValues.erase last.2.1 }, ?_,
    rfl, restNodes, indexed.popBack earlier last nodes restNodes⟩
  simp only [dropBack, back, popped, Option.bind_eq_bind, Option.bind_some]
  rfl

/-- There is room for a new key after what `insert` evicts. -/
theorem makeRoom_spec (refines : Refines cache recency) (key : Key) (value : Value)
    (missing : key ∉ recency.keys) :
    ∃ room, cache.makeRoom = some (room, recency.evictedBy key) ∧
      room.capacity = cache.capacity ∧ key ∉ room.mappedValues ∧
      (recency.insert key value).entries = (key, value) :: room.keyValues.values ∧
      Indexed Prod.fst room.keyValues room.mappedValues := by
  rw [makeRoom, refines.length_eq, refines.capacity]
  by_cases full : recency.entries.length = recency.capacity
  · have positive := recency.positive
    rw [← full, ← refines.length_eq] at positive
    obtain empty | ⟨earlier, last, nodes⟩ := List.eq_nil_or_concat cache.keyValues.nodes
    · rw [empty] at positive
      exact absurd positive (lt_irrefl 0)
    rw [List.concat_eq_append] at nodes
    have entries : recency.entries = earlier.map Prod.snd ++ [last.2] := by
      rw [← refines.entries, NodeList.values, nodes, List.map_append, List.map_singleton]
    have inserted := recency.insert_of_full key value missing _ _ entries full
    have evicted := recency.evictedBy_of_full key missing _ _ entries full
    obtain ⟨room, dropped, capacity, roomNodes, indexed⟩ :=
      dropBack_spec refines.indexed earlier last nodes
    refine ⟨room, ?_, capacity.trans refines.capacity, ?_, ?_, indexed⟩
    · rw [if_pos full, dropped, evicted, Option.map_some]
    · rw [indexed.mem_index_iff, roomNodes]
      rintro ⟨node, member, same⟩
      refine missing ((refines.mem_keys_iff key).mp ((refines.indexed.mem_index_iff key).mpr ?_))
      rw [nodes]
      exact ⟨node, List.mem_append_left _ member, same⟩
    · rw [inserted, NodeList.values, roomNodes]
  · have inserted := recency.insert_of_room key value missing full
    have evicted := recency.evictedBy_of_room key missing full
    refine ⟨cache, by rw [if_neg full, evicted], refines.capacity, ?_, ?_, refines.indexed⟩
    · rw [refines.mem_keys_iff]
      exact missing
    · rw [inserted, refines.entries]

/-- `insert` of a key that is there changes its value and makes it the first. -/
theorem insert_refines_of_find (refines : Refines cache recency) (key : Key) (value old : Value)
    (found : recency.find key = some old) :
    ∃ next, cache.insert key value = some (next, false, []) ∧
      Refines next (recency.insert key value) := by
  obtain ⟨handle, stored, entry⟩ := refines.node_of_find key old found
  obtain ⟨spliced, moved, nodes⟩ := cache.keyValues.moveFront_of_mem handle _ stored
  obtain ⟨values, indexed⟩ := refines.moveFront handle key old stored nodes
  have front : spliced.front = some handle := by
    rw [NodeList.front, nodes]
    rfl
  have there : (handle, (key, old)) ∈ spliced.nodes := by
    rw [nodes]
    exact List.mem_cons_self
  obtain ⟨changed, modified, changedNodes⟩ :=
    spliced.modify_of_mem handle (fun entry => (entry.1, value)) _ there
  have sameEntries : ∀ other, (cache.mappedValues.insert key handle).lookup other =
      cache.mappedValues.lookup other := by
    intro other
    by_cases same : other = key
    · rw [same, AList.lookup_insert, entry]
    · rw [AList.lookup_insert_ne same]
  have changedIndexed := indexed.modify handle (fun entry => (entry.1, value)) (fun _ => rfl)
    changedNodes
  refine ⟨{ cache with keyValues := changed, mappedValues := cache.mappedValues.insert key handle },
    ?_, refines.capacity, ?_, changedIndexed.congr (fun _ => Iff.rfl) sameEntries⟩
  · simp only [insert, entry, moved, front, modified, Option.bind_eq_bind, Option.bind_some]
    rfl
  · rw [recency.insert_of_mem key value (recency.mem_keys_of_find key old found),
      ← refines.values_others handle key old stored]
    show changed.nodes.map Prod.snd = _
    rw [changedNodes, nodes, List.map_cons, List.map_cons, if_pos rfl, List.map_map]
    refine congrArg ((key, value) :: ·) (List.map_congr_left fun node member => ?_)
    exact if_neg ((cache.keyValues.mem_others handle node).mp member).2

/-- `insert` of a new key. -/
theorem insert_refines_of_notMem (refines : Refines cache recency) (key : Key) (value : Value)
    (missing : key ∉ recency.keys) :
    ∃ next, cache.insert key value = some (next, true, recency.evictedBy key) ∧
      Refines next (recency.insert key value) := by
  obtain ⟨room, made, capacity, absent, entries, indexed⟩ :=
    makeRoom_spec refines key value missing
  have front : (room.keyValues.pushFront (key, value)).front = some room.keyValues.next := by
    rw [NodeList.front, NodeList.pushFront_nodes]
    rfl
  have positive : ¬cache.capacity = 0 := by
    rw [refines.capacity]
    exact recency.positive.ne'
  refine ⟨{ room with
      keyValues := room.keyValues.pushFront (key, value)
      mappedValues := emplace room.mappedValues key room.keyValues.next },
    ?_, capacity.trans refines.capacity, ?_, indexed.pushFront (key, value) absent⟩
  · simp only [insert, refines.lookup_of_notMem key missing, if_neg positive, made, front,
      Option.bind_eq_bind, Option.bind_some]
    rfl
  · rw [entries]
    show (room.keyValues.pushFront (key, value)).nodes.map Prod.snd = _
    rw [NodeList.pushFront_nodes, List.map_cons]
    rfl

theorem insert_refines (refines : Refines cache recency) (key : Key) (value : Value) :
    ∃ next, cache.insert key value =
        some (next, decide (key ∉ recency.keys), recency.evictedBy key) ∧
      Refines next (recency.insert key value) := by
  cases found : recency.find key with
  | some old =>
    have member := recency.mem_keys_of_find key old found
    rw [recency.evictedBy_of_mem key member, decide_eq_false (not_not.mpr member)]
    exact insert_refines_of_find refines key value old found
  | none =>
    have missing := (recency.find_eq_none_iff key).mp found
    rw [decide_eq_true missing]
    exact insert_refines_of_notMem refines key value missing

/-- The loop of `set_capacity` drops the last nodes, the last one first. -/
theorem dropBacks_spec (count : ℕ)
    (indexed : Indexed Prod.fst cache.keyValues cache.mappedValues)
    (kept dropped : List (ℕ × Key × Value)) (length : dropped.length = count)
    (nodes : cache.keyValues.nodes = kept ++ dropped) :
    ∃ next, dropBacks count cache =
        some (next, (dropped.map fun node => node.2.1).reverse) ∧
      next.keyValues.nodes = kept ∧ Indexed Prod.fst next.keyValues next.mappedValues := by
  induction count generalizing cache dropped with
  | zero =>
    obtain rfl := List.length_eq_zero_iff.mp length
    exact ⟨cache, rfl, nodes.trans (List.append_nil kept), indexed⟩
  | succ count inductionHypothesis =>
    obtain rfl | ⟨earlier, last, rfl⟩ := List.eq_nil_or_concat dropped
    · cases length
    rw [List.concat_eq_append] at nodes length ⊢
    rw [List.length_append, List.length_singleton] at length
    rw [← List.append_assoc] at nodes
    obtain ⟨shorter, stepped, -, shorterNodes, shorterIndexed⟩ :=
      dropBack_spec indexed (kept ++ earlier) last nodes
    obtain ⟨next, rest, nextNodes, nextIndexed⟩ :=
      inductionHypothesis shorterIndexed earlier (Nat.succ.inj length) shorterNodes
    refine ⟨next, ?_, nextNodes, nextIndexed⟩
    simp only [dropBacks, stepped, rest, Option.bind_eq_bind, Option.bind_some]
    rw [List.map_append, List.map_singleton, List.reverse_append]
    rfl

theorem setCapacity_refines (refines : Refines cache recency) (maxSize : ℕ)
    (positive : 0 < maxSize) :
    ∃ next, cache.setCapacity maxSize = some (next, recency.evictedAt maxSize) ∧
      Refines next (recency.setCapacity maxSize positive) := by
  have entries : recency.entries = cache.keyValues.nodes.map Prod.snd := refines.entries.symm
  by_cases smaller : maxSize < cache.size
  · have count : (cache.keyValues.nodes.drop maxSize).length = cache.size - maxSize := by
      rw [List.length_drop, refines.length_eq, refines.size_eq]
    obtain ⟨next, dropped, nodes, indexed⟩ := dropBacks_spec _ refines.indexed _ _ count
      (List.take_append_drop maxSize _).symm
    refine ⟨{ next with capacity := maxSize }, ?_, rfl, ?_, indexed⟩
    · simp only [setCapacity, if_pos smaller, dropped, Option.bind_eq_bind, Option.bind_some]
      rw [Recency.evictedAt, entries, ← List.map_drop, List.map_map]
      rfl
    · show next.keyValues.nodes.map Prod.snd = recency.entries.take maxSize
      rw [nodes, entries, List.map_take]
  · have short : recency.entries.length ≤ maxSize := by
      rw [← refines.size_eq]
      exact not_lt.mp smaller
    refine ⟨{ cache with capacity := maxSize }, ?_, rfl, ?_, refines.indexed⟩
    · simp only [setCapacity, if_neg smaller, Option.bind_eq_bind, Option.bind_some]
      rw [Recency.evictedAt, List.drop_of_length_le short]
      rfl
    · exact refines.entries.trans (List.take_of_length_le short).symm

end LruCache

end NativeLibs.Cache
