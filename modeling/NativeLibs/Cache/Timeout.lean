/-
This file embeds `TimeoutCache` of `common/cache.h`: a `std::list` of entries
with the newest in front, and a map from the keys to the iterators of their
entries. Every entry expires a fixed time after its last insertion, and nothing
but an insertion looks for room. An operation that follows an iterator to a node
that is gone, or looks for the last node of an empty list, has no result.

The cache never searches for the entry to drop: it takes the last one. That is
the entry with the earliest expiry because the list is in order of expiry, and
it stays in order because the clock does not go back, so that a new entry, or an
old one that is inserted again and spliced to the front, expires last. All the
other operations take entries away, and what is left is still in order. But the
clock counts in 64 bits: an expiry that does not fit wraps around to a time long
past, and the entry in front of the list is then the first to expire.
-/

import Mathlib.Data.List.AList
import NativeLibs.Library.NodeList
import NativeLibs.Library.Runs
import NativeLibs.Library.SignedNumbers

namespace NativeLibs.Cache

open Library

/-- `TimeoutCache::Entry`. -/
structure Entry (Key Value : Type) where
  key : Key
  value : Value
  expires : ℤ

/-- The two assignments to an entry that is inserted again. -/
def Entry.renew {Key Value : Type} (value : Value) (expires : ℤ) (entry : Entry Key Value) :
    Entry Key Value := { entry with value, expires }

/-- The members of a `TimeoutCache` that change. -/
structure TimeoutCache (Key Value : Type) where
  entries : NodeList (Entry Key Value)
  entryIterByKey : AList fun _ : Key => ℕ

namespace TimeoutCache

variable {Key Value : Type} [DecidableEq Key]

/-! ### The operations -/

/-- The constructor. -/
def new : TimeoutCache Key Value := ⟨NodeList.empty, ∅⟩

/-- `TimeoutCache::size`. -/
def size (cache : TimeoutCache Key Value) : ℕ := cache.entries.nodes.length

/-- The first lines of `TimeoutCache::insert`, with the entry that is dropped from a full cache. -/
def makeRoom (capacity : ℕ) (cache : TimeoutCache Key Value) :
    Option (TimeoutCache Key Value × Option (Entry Key Value)) :=
  if capacity ≠ 0 ∧ cache.entryIterByKey.keys.length = capacity then do
    let oldest ← cache.entries.back
    let entries ← cache.entries.popBack
    return (⟨entries, cache.entryIterByKey.erase oldest.key⟩, some oldest)
  else some (cache, none)

/-- The rest of `TimeoutCache::insert`. -/
def place (cache : TimeoutCache Key Value) (key : Key) (value : Value) (expires : ℤ) :
    Option (TimeoutCache Key Value) :=
  match cache.entryIterByKey.lookup key with
  | some node => do
    let changed ← cache.entries.modify node (Entry.renew value expires)
    let entries ← changed.moveFront node
    return { cache with entries }
  | none => do
    let entries := cache.entries.pushFront ⟨key, value, expires⟩
    let first ← entries.front
    let front ← entries.valueAt first
    return ⟨entries, emplace cache.entryIterByKey front.key first⟩

/-- `TimeoutCache::insert` at a time. -/
def insert (timeout : ℤ) (capacity : ℕ) (cache : TimeoutCache Key Value) (key : Key)
    (value : Value) (now : ℤ) : Option (TimeoutCache Key Value) := do
  let (room, _) ← cache.makeRoom capacity
  room.place key value (wrappedSum 64 now timeout)

/-- `TimeoutCache::erase`. -/
def erase (cache : TimeoutCache Key Value) (key : Key) : Option (TimeoutCache Key Value) :=
  match cache.entryIterByKey.lookup key with
  | none => some cache
  | some node => do
    let entries ← cache.entries.erase node
    return ⟨entries, cache.entryIterByKey.erase key⟩

/-- `TimeoutCache::get` at a time, with the value the returned pointer points to. -/
def get (cache : TimeoutCache Key Value) (key : Key) (now : ℤ) :
    Option (TimeoutCache Key Value × Option Value) :=
  match cache.entryIterByKey.lookup key with
  | none => some (cache, none)
  | some node => do
    let entry ← cache.entries.valueAt node
    if entry.expires ≤ now then
      let entries ← cache.entries.erase node
      return (⟨entries, cache.entryIterByKey.erase key⟩, none)
    else return (cache, some entry.value)

/-- `TimeoutCache::clear`. -/
def clear (cache : TimeoutCache Key Value) : TimeoutCache Key Value :=
  ⟨cache.entries.clear, ∅⟩

/-! ### What an operation does to the entries -/

/-- The list and the map belong together. -/
def Paired (cache : TimeoutCache Key Value) : Prop :=
  Indexed Entry.key cache.entries cache.entryIterByKey

variable {cache : TimeoutCache Key Value}

theorem Paired.map_size (paired : Paired cache) :
    cache.entryIterByKey.keys.length = cache.size := by
  rw [(Indexed.keys_perm paired).length_eq, List.length_map, NodeList.values, List.length_map,
    size]

/-- A key is in the map exactly if there is an entry for it, and the map points to that. -/
theorem Paired.lookup_cases (paired : Paired cache) (key : Key) :
    (∃ node entry, (node, entry) ∈ cache.entries.nodes ∧ entry.key = key ∧
      cache.entryIterByKey.lookup key = some node) ∨
    ((∀ entry ∈ cache.entries.values, entry.key ≠ key) ∧
      cache.entryIterByKey.lookup key = none) := by
  cases found : cache.entryIterByKey.lookup key with
  | some node =>
    obtain ⟨entry, stored, same⟩ := (Indexed.points paired key node).mp found
    exact .inl ⟨node, entry, stored, same, rfl⟩
  | none =>
    refine .inr ⟨fun entry member same => ?_, rfl⟩
    obtain ⟨node, stored, rfl⟩ := List.mem_map.mp member
    rw [← same, Indexed.lookup_of_mem paired node stored] at found
    exact nomatch found

/-- The entries with another key. -/
def others (entries : List (Entry Key Value)) (key : Key) : List (Entry Key Value) :=
  entries.filter fun entry => entry.key ≠ key

theorem others_sublist (entries : List (Entry Key Value)) (key : Key) :
    (others entries key).Sublist entries := List.filter_sublist

theorem mem_others (entries : List (Entry Key Value)) (key : Key) (entry : Entry Key Value) :
    entry ∈ others entries key ↔ entry ∈ entries ∧ entry.key ≠ key := by
  rw [others, List.mem_filter, decide_eq_true_eq]

theorem others_of_missing {entries : List (Entry Key Value)} {key : Key}
    (missing : ∀ entry ∈ entries, entry.key ≠ key) : others entries key = entries :=
  List.filter_eq_self.mpr fun entry member => decide_eq_true (missing entry member)

theorem Paired.values_others (paired : Paired cache) {node : ℕ} {entry : Entry Key Value}
    (stored : (node, entry) ∈ cache.entries.nodes) :
    (cache.entries.others node).map Prod.snd = others cache.entries.values entry.key :=
  Indexed.values_others paired (node, entry) stored

/-- A full cache drops its last entry, and another one drops none. -/
theorem Paired.makeRoom (paired : Paired cache) (capacity : ℕ) :
    ∃ room dropped, cache.makeRoom capacity = some (room, dropped) ∧ Paired room ∧
      (capacity ≠ 0 ∧ cache.size = capacity ∧
          (∃ oldest, dropped = some oldest ∧
            cache.entries.values = room.entries.values ++ [oldest]) ∨
        (capacity ≠ 0 → cache.size ≠ capacity) ∧ dropped = none ∧ room = cache) := by
  rw [TimeoutCache.makeRoom, paired.map_size]
  by_cases full : capacity ≠ 0 ∧ cache.size = capacity
  · have nonempty : cache.entries.nodes ≠ [] := by
      intro empty
      exact full.1 (full.2.symm.trans (by rw [size, empty, List.length_nil]))
    obtain ⟨earlier, last, nodes⟩ :=
      (List.eq_nil_or_concat cache.entries.nodes).resolve_left nonempty
    rw [List.concat_eq_append] at nodes
    have back : cache.entries.back = some last.2 := by
      rw [NodeList.back, nodes, List.getLast?_concat, Option.map_some]
    obtain ⟨rest, popped, restNodes⟩ := cache.entries.popBack_of_ne_nil nonempty
    rw [nodes, List.dropLast_concat] at restNodes
    have values : cache.entries.values = rest.values ++ [last.2] := by
      rw [NodeList.values, NodeList.values, nodes, restNodes, List.map_append, List.map_singleton]
    refine ⟨⟨rest, cache.entryIterByKey.erase last.2.key⟩, some last.2, ?_,
      Indexed.popBack paired earlier last nodes restNodes,
      .inl ⟨full.1, full.2, last.2, rfl, values⟩⟩
    simp only [if_pos full, back, popped, Option.bind_eq_bind, Option.bind_some]
    rfl
  · rw [if_neg full]
    exact ⟨cache, none, rfl, paired, .inr ⟨fun limited same => full ⟨limited, same⟩, rfl, rfl⟩⟩

theorem Paired.place (paired : Paired cache) (key : Key) (value : Value) (expires : ℤ) :
    ∃ next, cache.place key value expires = some next ∧ Paired next ∧
      next.entries.values = ⟨key, value, expires⟩ :: others cache.entries.values key := by
  rw [TimeoutCache.place]
  rcases paired.lookup_cases key with ⟨node, entry, stored, rfl, found⟩ | ⟨missing, absent⟩
  · obtain ⟨changed, modified, changedNodes⟩ :=
      cache.entries.modify_of_mem node (Entry.renew value expires) entry stored
    have changedStored : (node, entry.renew value expires) ∈ changed.nodes := by
      rw [changedNodes]
      exact List.mem_map.mpr ⟨(node, entry), stored, by simp⟩
    obtain ⟨spliced, moved, nodes⟩ := changed.moveFront_of_mem node _ changedStored
    have changedPaired : Indexed Entry.key changed cache.entryIterByKey :=
      Indexed.modify paired node (Entry.renew value expires) (fun _ => rfl) changedNodes
    refine ⟨{ cache with entries := spliced }, ?_,
      changedPaired.moveFront _ changedStored nodes, ?_⟩
    · simp only [found, modified, moved, Option.bind_eq_bind, Option.bind_some]
      rfl
    · show spliced.nodes.map Prod.snd = _
      rw [nodes, NodeList.others_of_modify node _ changedNodes, List.map_cons,
        paired.values_others stored]
      rfl
  · have new : key ∉ cache.entryIterByKey := AList.lookup_eq_none.mp absent
    have nodes := cache.entries.pushFront_nodes ⟨key, value, expires⟩
    have front : (cache.entries.pushFront ⟨key, value, expires⟩).front =
        some cache.entries.next := by
      rw [NodeList.front, nodes]
      rfl
    have first : (cache.entries.pushFront ⟨key, value, expires⟩).valueAt cache.entries.next =
        some ⟨key, value, expires⟩ := by
      rw [NodeList.valueAt_eq_some_iff, nodes]
      exact List.mem_cons_self
    refine ⟨⟨cache.entries.pushFront ⟨key, value, expires⟩,
        emplace cache.entryIterByKey key cache.entries.next⟩, ?_,
      Indexed.pushFront paired ⟨key, value, expires⟩ new, ?_⟩
    · simp only [absent, front, first, Option.bind_eq_bind, Option.bind_some]
      rfl
    · rw [NodeList.values, nodes, List.map_cons, others_of_missing missing]
      rfl

theorem Paired.erase (paired : Paired cache) (key : Key) :
    ∃ next, cache.erase key = some next ∧ Paired next ∧
      next.entries.values = others cache.entries.values key := by
  rw [TimeoutCache.erase]
  rcases paired.lookup_cases key with ⟨node, entry, stored, rfl, found⟩ | ⟨missing, absent⟩
  · obtain ⟨rest, erased, nodes⟩ := cache.entries.erase_of_mem node entry stored
    refine ⟨⟨rest, cache.entryIterByKey.erase entry.key⟩, ?_,
      Indexed.erase paired (node, entry) stored nodes, ?_⟩
    · simp only [found, erased, Option.bind_eq_bind, Option.bind_some]
      rfl
    · show rest.nodes.map Prod.snd = _
      rw [nodes, paired.values_others stored]
  · rw [absent]
    exact ⟨cache, rfl, paired, (others_of_missing missing).symm⟩

/-- A lookup answers with the entry of the key if that has not expired, and takes an expired one
away. -/
theorem Paired.get (paired : Paired cache) (key : Key) (now : ℤ) :
    ∃ next answer, cache.get key now = some (next, answer) ∧ Paired next ∧
      next.entries.values.Sublist cache.entries.values ∧
      ∀ value, answer = some value ↔
        ∃ entry ∈ cache.entries.values, entry.key = key ∧ now < entry.expires ∧
          entry.value = value := by
  rw [TimeoutCache.get]
  rcases paired.lookup_cases key with ⟨node, entry, stored, rfl, found⟩ | ⟨missing, absent⟩
  · have there := (cache.entries.valueAt_eq_some_iff node entry).mpr stored
    have member : entry ∈ cache.entries.values := List.mem_map.mpr ⟨(node, entry), stored, rfl⟩
    have only : ∀ other ∈ cache.entries.values, other.key = entry.key → other = entry :=
      fun other otherMember same =>
        List.inj_on_of_nodup_map (Indexed.keys_nodup paired) otherMember member same
    by_cases expired : entry.expires ≤ now
    · obtain ⟨rest, erased, nodes⟩ := cache.entries.erase_of_mem node entry stored
      refine ⟨⟨rest, cache.entryIterByKey.erase entry.key⟩, none, ?_,
        Indexed.erase paired (node, entry) stored nodes, ?_, fun value => ?_⟩
      · simp only [found, there, Option.bind_eq_bind, Option.bind_some, if_pos expired, erased]
        rfl
      · show (rest.nodes.map Prod.snd).Sublist _
        rw [nodes, paired.values_others stored]
        exact others_sublist _ _
      · refine ⟨fun impossible => (nomatch impossible), ?_⟩
        rintro ⟨other, otherMember, same, later, -⟩
        rw [only other otherMember same] at later
        exact absurd later (not_lt.mpr expired)
    · refine ⟨cache, some entry.value, ?_, paired, List.Sublist.refl _, fun value => ?_⟩
      · simp only [found, there, Option.bind_eq_bind, Option.bind_some, if_neg expired]
        rfl
      · rw [Option.some.injEq]
        refine ⟨fun same => ⟨entry, member, rfl, not_le.mp expired, same⟩, ?_⟩
        rintro ⟨other, otherMember, same, -, rfl⟩
        rw [only other otherMember same]
  · rw [absent]
    refine ⟨cache, none, rfl, paired, List.Sublist.refl _, fun value => ?_⟩
    refine ⟨fun impossible => (nomatch impossible), ?_⟩
    rintro ⟨entry, member, same, -⟩
    exact absurd same (missing entry member)

theorem Paired.clear (cache : TimeoutCache Key Value) : Paired cache.clear := Indexed.nil rfl

/-! ### The entries in order of expiry -/

/-- The entries are in order of expiry, the latest first, none expires later than one that would
be inserted now, and every one has the value its key was last inserted with. -/
structure Ordered (timeout clock : ℤ) (lastInsert : Key → Option Value)
    (entries : List (Entry Key Value)) : Prop where
  sorted : entries.Pairwise fun newer older => older.expires ≤ newer.expires
  notLater : ∀ entry ∈ entries, entry.expires ≤ clock + timeout
  value : ∀ entry ∈ entries, lastInsert entry.key = some entry.value

variable {timeout clock now : ℤ} {lastInsert : Key → Option Value}
  {entries fewer : List (Entry Key Value)}

omit [DecidableEq Key] in
theorem Ordered.sublist (ordered : Ordered timeout clock lastInsert entries)
    (sublist : fewer.Sublist entries) (onward : clock ≤ now) :
    Ordered timeout now lastInsert fewer := by
  refine ⟨ordered.sorted.sublist sublist, fun entry member => ?_,
    fun entry member => ordered.value entry (sublist.subset member)⟩
  exact (ordered.notLater entry (sublist.subset member)).trans (by gcongr)

theorem Ordered.cons (ordered : Ordered timeout now lastInsert entries) (key : Key)
    (value : Value) (fits : Fits 64 (now + timeout)) :
    Ordered timeout now (Function.update lastInsert key (some value))
      (⟨key, value, wrappedSum 64 now timeout⟩ :: others entries key) := by
  have rest := ordered.sublist (others_sublist entries key) le_rfl
  rw [wrappedSum_of_fits (by decide) fits]
  refine ⟨List.pairwise_cons.mpr ⟨rest.notLater, rest.sorted⟩,
    List.forall_mem_cons.mpr ⟨le_rfl, rest.notLater⟩,
    List.forall_mem_cons.mpr ⟨Function.update_self _ _ _, fun entry member => ?_⟩⟩
  rw [Function.update_of_ne ((mem_others entries key entry).mp member).2]
  exact rest.value entry member

omit [DecidableEq Key] in
theorem Ordered.le_of_concat {last : Entry Key Value}
    (ordered : Ordered timeout clock lastInsert (entries ++ [last])) :
    ∀ entry ∈ entries ++ [last], last.expires ≤ entry.expires := by
  intro entry member
  rcases List.mem_append.mp member with earlier | same
  · exact (List.pairwise_append.mp ordered.sorted).2.2 entry earlier last
      (List.mem_singleton_self last)
  · rw [List.mem_singleton.mp same]

/-! ### Runs -/

/-- The operations of a cache. -/
inductive Operation (Key Value : Type) where
  | insert (key : Key) (value : Value)
  | get (key : Key)
  | erase (key : Key)
  | clear

/-- A cache, the time of the last operation, and the value each key was last inserted with. -/
structure World (Key Value : Type) where
  cache : TimeoutCache Key Value
  clock : ℤ
  lastInsert : Key → Option Value

/-- A new cache. -/
def World.start (clock : ℤ) : World Key Value := ⟨new, clock, fun _ => none⟩

/-- An operation at a time. -/
def worldStep (timeout : ℤ) (capacity : ℕ) (world : World Key Value) :
    ℤ × Operation Key Value → Option (World Key Value)
  | (now, .insert key value) => do
    let cache ← world.cache.insert timeout capacity key value now
    return ⟨cache, now, Function.update world.lastInsert key (some value)⟩
  | (now, .get key) => do
    let (cache, _) ← world.cache.get key now
    return { world with cache, clock := now }
  | (now, .erase key) => do
    let cache ← world.cache.erase key
    return { world with cache, clock := now }
  | (now, .clear) => some { world with cache := world.cache.clear, clock := now }

/-- The clock does not go back. -/
def Onward (world : World Key Value) (input : ℤ × Operation Key Value) : Prop :=
  world.clock ≤ input.1

/-- The expiry of an insertion fits into the 64 bits of the clock. -/
def Dated (timeout : ℤ) (input : ℤ × Operation Key Value) : Prop :=
  ∀ key value, input.2 = .insert key value → Fits 64 (input.1 + timeout)

/-- What every run keeps. -/
structure Sound (timeout : ℤ) (capacity : ℕ) (world : World Key Value) : Prop where
  paired : Paired world.cache
  ordered : Ordered timeout world.clock world.lastInsert world.cache.entries.values
  bounded : capacity ≠ 0 → world.cache.size ≤ capacity

variable {capacity : ℕ} {world : World Key Value}

omit [DecidableEq Key] in
theorem size_eq (cache : TimeoutCache Key Value) : cache.size = cache.entries.values.length := by
  rw [size, NodeList.values, List.length_map]

/-- Entries that go leave the rest as it should be. -/
theorem Sound.sublist (sound : Sound timeout capacity world) {next : TimeoutCache Key Value}
    (paired : Paired next) (onward : world.clock ≤ now)
    (sublist : next.entries.values.Sublist world.cache.entries.values) :
    Sound timeout capacity { world with cache := next, clock := now } := by
  refine ⟨paired, sound.ordered.sublist sublist onward, fun limited => ?_⟩
  have shorter := sublist.length_le
  rw [← size_eq, ← size_eq] at shorter
  exact shorter.trans (sound.bounded limited)

/-- After what `insert` drops there is room for one more entry. -/
theorem Sound.makeRoom (sound : Sound timeout capacity world) :
    ∃ room dropped, world.cache.makeRoom capacity = some (room, dropped) ∧ Paired room ∧
      room.entries.values.Sublist world.cache.entries.values ∧
      (capacity ≠ 0 → room.size < capacity) ∧
      ∀ oldest ∈ dropped, oldest ∈ world.cache.entries.values ∧
        ∀ entry ∈ world.cache.entries.values, oldest.expires ≤ entry.expires := by
  obtain ⟨room, dropped, performed, paired, full | free⟩ := sound.paired.makeRoom capacity
  · obtain ⟨-, full, oldest, rfl, values⟩ := full
    refine ⟨room, some oldest, performed, paired, ?_, fun _ => ?_, ?_⟩
    · rw [values]
      exact List.sublist_append_left _ _
    · rw [size_eq, values, List.length_append, List.length_singleton, ← size_eq] at full
      exact Nat.lt_of_succ_le full.le
    · rintro _ ⟨⟩
      have ordered := sound.ordered
      rw [values] at ordered ⊢
      exact ⟨List.mem_concat_self, ordered.le_of_concat⟩
  · obtain ⟨notFull, rfl, rfl⟩ := free
    refine ⟨world.cache, none, performed, paired, List.Sublist.refl _, fun limited => ?_,
      fun _ impossible => (nomatch impossible)⟩
    exact lt_of_le_of_ne (sound.bounded limited) (notFull limited)

theorem Sound.insert (sound : Sound timeout capacity world) (onward : world.clock ≤ now)
    (key : Key) (value : Value) (fits : Fits 64 (now + timeout)) :
    ∃ next, world.cache.insert timeout capacity key value now = some next ∧
      Sound timeout capacity ⟨next, now, Function.update world.lastInsert key (some value)⟩ := by
  obtain ⟨room, dropped, roomed, paired, sublist, free, -⟩ := sound.makeRoom
  obtain ⟨next, placed, nextPaired, values⟩ := paired.place key value (wrappedSum 64 now timeout)
  refine ⟨next, ?_, nextPaired, ?_, fun limited => ?_⟩
  · rw [TimeoutCache.insert, roomed]
    exact placed
  · show Ordered _ _ _ next.entries.values
    rw [values]
    exact (sound.ordered.sublist sublist onward).cons key value fits
  · show next.size ≤ capacity
    have shorter := (others_sublist room.entries.values key).length_le
    rw [← size_eq] at shorter
    rw [size_eq, values, List.length_cons]
    exact Nat.succ_le_of_lt (shorter.trans_lt (free limited))

/-- Every operation has a result and keeps the invariant. -/
theorem Sound.step (sound : Sound timeout capacity world) (input : ℤ × Operation Key Value)
    (onward : Onward world input) (dated : Dated timeout input) :
    ∃ next, worldStep timeout capacity world input = some next ∧
      Sound timeout capacity next := by
  obtain ⟨now, operation⟩ := input
  cases operation with
  | insert key value =>
    obtain ⟨next, performed, kept⟩ := sound.insert onward key value (dated key value rfl)
    exact ⟨_, by rw [worldStep, performed]; rfl, kept⟩
  | get key =>
    obtain ⟨next, answer, performed, paired, sublist, -⟩ := sound.paired.get key now
    exact ⟨_, by rw [worldStep, performed]; rfl, sound.sublist paired onward sublist⟩
  | erase key =>
    obtain ⟨next, performed, paired, values⟩ := sound.paired.erase key
    refine ⟨_, by rw [worldStep, performed]; rfl, sound.sublist paired onward ?_⟩
    rw [values]
    exact others_sublist _ _
  | clear =>
    exact ⟨_, rfl, sound.sublist (Paired.clear world.cache) onward (List.nil_sublist _)⟩

theorem Sound.start (timeout : ℤ) (capacity : ℕ) (clock : ℤ) :
    Sound timeout capacity (World.start clock : World Key Value) :=
  ⟨Indexed.nil rfl,
    ⟨List.Pairwise.nil, fun _ member => (nomatch member), fun _ member => (nomatch member)⟩,
    fun _ => Nat.zero_le capacity⟩

/-- After every sequence of operations during which the clock does not go back and every expiry
fits into 64 bits: the list and the map are in bijection by key, the entries are in order of expiry,
and there are not more than the capacity allows. An insertion that comes next drops at most an entry
with the earliest expiry of all. A lookup that comes next finds a value exactly if the key is stored
with an expiry later than now, and it is the value of the last insertion of the key. -/
theorem timeoutCache_ordered (timeout : ℤ) (capacity : ℕ) (start : ℤ)
    (operations : List (ℤ × Operation Key Value))
    (onward : Along (worldStep timeout capacity) Onward (World.start start) operations)
    (dated : ∀ input ∈ operations, Dated timeout input) :
    ∃ world, run (worldStep timeout capacity) (World.start start) operations = some world ∧
      Indexed Entry.key world.cache.entries world.cache.entryIterByKey ∧
      world.cache.entries.values.Pairwise (fun front back => back.expires ≤ front.expires) ∧
      (capacity ≠ 0 → world.cache.size ≤ capacity) ∧
      (∃ room dropped, world.cache.makeRoom capacity = some (room, dropped) ∧
        ∀ oldest ∈ dropped, oldest ∈ world.cache.entries.values ∧
          ∀ entry ∈ world.cache.entries.values, oldest.expires ≤ entry.expires) ∧
      ∀ key now, ∃ next answer, world.cache.get key now = some (next, answer) ∧
        (answer.isSome ↔
          ∃ entry ∈ world.cache.entries.values, entry.key = key ∧ now < entry.expires) ∧
        ∀ value, answer = some value → world.lastInsert key = some value := by
  obtain ⟨world, reached, sound⟩ := run_defined_along
    (fun _ input sound meets => Sound.step sound input meets.1 meets.2)
    (Sound.start timeout capacity start)
    (onward.and (.of_mem (fun input member _ => dated input member) _))
  refine ⟨world, reached, sound.paired, sound.ordered.sorted, sound.bounded, ?_,
    fun key now => ?_⟩
  · obtain ⟨room, dropped, performed, -, -, -, earliest⟩ := sound.makeRoom
    exact ⟨room, dropped, performed, earliest⟩
  · obtain ⟨next, answer, performed, -, -, found⟩ := sound.paired.get key now
    refine ⟨next, answer, performed, ?_, fun value answered => ?_⟩
    · rw [Option.isSome_iff_exists]
      constructor
      · rintro ⟨value, answered⟩
        obtain ⟨entry, member, same, later, -⟩ := (found value).mp answered
        exact ⟨entry, member, same, later⟩
      · rintro ⟨entry, member, same, later⟩
        exact ⟨entry.value, (found entry.value).mpr ⟨entry, member, same, later, rfl⟩⟩
    · obtain ⟨entry, member, rfl, -, rfl⟩ := (found value).mp answered
      exact sound.ordered.value entry member

/-- Operations on a cache of two entries. The third insertion drops the first entry, and the last
lookup finds an expired one. -/
def threeInsertions : List (ℤ × Operation ℕ ℕ) :=
  [(0, .insert 1 10), (3, .insert 2 20), (4, .get 1), (5, .insert 3 30), (13, .get 2)]

theorem threeInsertions_onward :
    Along (worldStep 10 2) Onward (World.start 0) threeInsertions :=
  .cons rfl (show (0 : ℤ) ≤ 0 by decide) <| .cons rfl (show (0 : ℤ) ≤ 3 by decide) <|
    .cons rfl (show (3 : ℤ) ≤ 4 by decide) <| .cons rfl (show (4 : ℤ) ≤ 5 by decide) <|
    .cons rfl (show (5 : ℤ) ≤ 13 by decide) trivial

theorem threeInsertions_dated : ∀ input ∈ threeInsertions, Dated 10 input := by
  refine List.forall_mem_cons.mpr ⟨fun _ _ _ => by decide, ?_⟩
  refine List.forall_mem_cons.mpr ⟨fun _ _ _ => by decide, ?_⟩
  refine List.forall_mem_cons.mpr ⟨fun _ _ _ => by decide, ?_⟩
  refine List.forall_mem_cons.mpr ⟨fun _ _ _ => by decide, ?_⟩
  exact List.forall_mem_singleton.mpr fun _ _ _ => by decide

theorem timeoutCache_ordered_threeInsertions :
    Along (worldStep 10 2) Onward (World.start 0) threeInsertions ∧
      (∀ input ∈ threeInsertions, Dated 10 input) ∧
      ∃ world, run (worldStep 10 2) (World.start 0) threeInsertions = some world ∧
        Indexed Entry.key world.cache.entries world.cache.entryIterByKey ∧
        world.cache.entries.values.Pairwise (fun front back => back.expires ≤ front.expires) ∧
        world.cache.size ≤ 2 := by
  obtain ⟨world, reached, paired, sorted, bounded, -⟩ :=
    timeoutCache_ordered 10 2 0 threeInsertions threeInsertions_onward threeInsertions_dated
  exact ⟨threeInsertions_onward, threeInsertions_dated, world, reached, paired, sorted,
    bounded (by decide)⟩

/-- With a timeout five ticks short of the largest, the second expiry wraps around: the entry in
front expires first. -/
theorem wrappedExpiry_outOfOrder :
    Along (worldStep (2 ^ 63 - 6) 2) Onward (World.start 0)
        [(1, .insert 1 10), (10, .insert 2 20)] ∧
      ∃ world : World ℕ ℕ,
        run (worldStep (2 ^ 63 - 6) 2) (World.start 0) [(1, .insert 1 10), (10, .insert 2 20)] =
          some world ∧
        ¬world.cache.entries.values.Pairwise (fun front back => back.expires ≤ front.expires) :=
  ⟨.cons rfl (show (0 : ℤ) ≤ 1 by decide) <| .cons rfl (show (1 : ℤ) ≤ 10 by decide) trivial,
    _, rfl, by decide⟩

/-! ### Updates -/

/-- The entry of a key. -/
def find (cache : TimeoutCache Key Value) (key : Key) : Option (Entry Key Value) := do
  let node ← cache.entryIterByKey.lookup key
  cache.entries.valueAt node

theorem Paired.find_eq_some_iff (paired : Paired cache) (key : Key) (entry : Entry Key Value) :
    cache.find key = some entry ↔ entry ∈ cache.entries.values ∧ entry.key = key := by
  rw [find, Option.bind_eq_bind, Option.bind_eq_some_iff]
  constructor
  · rintro ⟨node, found, there⟩
    have stored := (cache.entries.valueAt_eq_some_iff node entry).mp there
    obtain ⟨other, otherStored, same⟩ := (Indexed.points paired key node).mp found
    rw [(cache.entries.valueAt_eq_some_iff node other).mpr otherStored] at there
    obtain rfl := Option.some.inj there
    exact ⟨List.mem_map.mpr ⟨(node, other), stored, rfl⟩, same⟩
  · rintro ⟨member, rfl⟩
    obtain ⟨⟨node, _⟩, stored, rfl⟩ := List.mem_map.mp member
    exact ⟨node, Indexed.lookup_of_mem paired (node, _) stored,
      (cache.entries.valueAt_eq_some_iff node _).mpr stored⟩

/-- Every operation leaves the list and the map paired, whatever the time. -/
theorem Paired.step (paired : Paired world.cache) (input : ℤ × Operation Key Value) :
    ∃ next, worldStep timeout capacity world input = some next ∧ Paired next.cache := by
  obtain ⟨now, operation⟩ := input
  cases operation with
  | insert key value =>
    obtain ⟨room, dropped, roomed, roomPaired, -⟩ := paired.makeRoom capacity
    obtain ⟨next, placed, nextPaired, -⟩ := roomPaired.place key value (wrappedSum 64 now timeout)
    refine ⟨⟨next, now, Function.update world.lastInsert key (some value)⟩, ?_, nextPaired⟩
    simp only [worldStep, TimeoutCache.insert, roomed, placed, Option.bind_eq_bind,
      Option.bind_some]
    rfl
  | get key =>
    obtain ⟨next, answer, performed, nextPaired, -⟩ := paired.get key now
    exact ⟨_, by rw [worldStep, performed]; rfl, nextPaired⟩
  | erase key =>
    obtain ⟨next, performed, nextPaired, -⟩ := paired.erase key
    exact ⟨_, by rw [worldStep, performed]; rfl, nextPaired⟩
  | clear => exact ⟨_, rfl, Paired.clear world.cache⟩

theorem Paired.of_run {start : ℤ} {operations : List (ℤ × Operation Key Value)}
    (reached : run (worldStep timeout capacity) (World.start start) operations = some world) :
    Paired world.cache := by
  have new : Paired (World.start start : World Key Value).cache := Indexed.nil rfl
  have keeps : ∀ (state : World Key Value) (input) (next : World Key Value), Paired state.cache →
      worldStep timeout capacity state input = some next → Paired next.cache := by
    intro state input next paired stepped
    obtain ⟨other, performed, kept⟩ := Paired.step paired input
    exact Option.some.inj (performed.symm.trans stepped) ▸ kept
  exact run_invariant keeps new reached

/-- An insertion leaves the inserted entry and what was not dropped of the other keys. -/
theorem Paired.insert_of_room {room : TimeoutCache Key Value} {dropped : Option (Entry Key Value)}
    (roomed : cache.makeRoom capacity = some (room, dropped)) (paired : Paired room)
    (timeout : ℤ) (key : Key) (value : Value) (now : ℤ) :
    ∃ next, cache.insert timeout capacity key value now = some next ∧
      next.find key = some ⟨key, value, wrappedSum 64 now timeout⟩ ∧
      ∀ other, other ≠ key → next.find other = room.find other := by
  obtain ⟨next, placed, nextPaired, values⟩ := paired.place key value (wrappedSum 64 now timeout)
  refine ⟨next, ?_, ?_, fun other different => Option.ext fun entry => ?_⟩
  · rw [TimeoutCache.insert, roomed]
    exact placed
  · rw [nextPaired.find_eq_some_iff, values]
    exact ⟨List.mem_cons_self, rfl⟩
  · rw [nextPaired.find_eq_some_iff, paired.find_eq_some_iff, values, List.mem_cons, mem_others]
    constructor
    · rintro ⟨rfl | ⟨member, -⟩, same⟩
      · exact absurd same.symm different
      · exact ⟨member, same⟩
    · rintro ⟨member, rfl⟩
      exact ⟨.inr ⟨member, different⟩, rfl⟩

theorem Paired.find_of_dropped (paired : Paired cache) {room : TimeoutCache Key Value}
    (roomPaired : Paired room) {oldest : Entry Key Value}
    (values : cache.entries.values = room.entries.values ++ [oldest]) (key : Key) :
    room.find key = cache.find key ↔ key ≠ oldest.key := by
  have distinct := Indexed.keys_nodup paired
  rw [values, List.map_append] at distinct
  have dropped : room.find oldest.key = none := by
    rw [Option.eq_none_iff_forall_ne_some]
    intro entry found
    obtain ⟨member, same⟩ := (roomPaired.find_eq_some_iff _ _).mp found
    exact List.disjoint_of_nodup_append distinct (List.mem_map.mpr ⟨entry, member, same⟩)
      (List.mem_singleton_self oldest.key)
  have stored : cache.find oldest.key = some oldest := by
    rw [paired.find_eq_some_iff, values]
    exact ⟨List.mem_concat_self, rfl⟩
  constructor
  · rintro same rfl
    rw [dropped, stored] at same
    cases same
  · intro different
    refine Option.ext fun entry => ?_
    rw [roomPaired.find_eq_some_iff, paired.find_eq_some_iff, values, List.mem_append,
      List.mem_singleton]
    refine and_congr_left fun same => ⟨.inl, fun member => member.resolve_right ?_⟩
    rintro rfl
    exact different same.symm

/-- After every sequence of operations, an insertion gives its key the value and a new expiry. It
leaves every other key stored as it was exactly if the cache is not full or the oldest entry is
that of the key. -/
theorem timeoutCache_update_iff (timeout : ℤ) (capacity : ℕ) (start : ℤ)
    (operations : List (ℤ × Operation Key Value)) (world : World Key Value)
    (reached : run (worldStep timeout capacity) (World.start start) operations = some world)
    (key : Key) (value : Value) (now : ℤ) :
    ∃ next, world.cache.insert timeout capacity key value now = some next ∧
      next.find key = some ⟨key, value, wrappedSum 64 now timeout⟩ ∧
      ((∀ other, other ≠ key → next.find other = world.cache.find other) ↔
        (capacity ≠ 0 → world.cache.size = capacity →
          ∀ oldest, world.cache.entries.values.getLast? = some oldest → oldest.key = key)) := by
  have paired := Paired.of_run reached
  obtain ⟨room, dropped, roomed, roomPaired, full | free⟩ := paired.makeRoom capacity
  · obtain ⟨limited, size, oldest, -, values⟩ := full
    obtain ⟨next, performed, own, others⟩ :=
      roomPaired.insert_of_room roomed timeout key value now
    refine ⟨next, performed, own, ?_⟩
    have last : world.cache.entries.values.getLast? = some oldest := by
      rw [values, List.getLast?_concat]
    constructor
    · rintro kept - - _ same
      obtain rfl := Option.some.inj (last.symm.trans same)
      by_contra different
      have found := (others _ different).symm.trans (kept _ different)
      exact (paired.find_of_dropped roomPaired values _).mp found rfl
    · intro oldestIs other different
      rw [others other different, paired.find_of_dropped roomPaired values,
        oldestIs limited size oldest last]
      exact different
  · obtain ⟨notFull, -, rfl⟩ := free
    obtain ⟨next, performed, own, others⟩ :=
      roomPaired.insert_of_room roomed timeout key value now
    exact ⟨next, performed, own,
      iff_of_true others fun limited size => absurd size (notFull limited)⟩

/-- An update of the oldest entry of a full cache. -/
theorem timeoutCache_update_iff_oldest :
    ∃ (world : World ℕ ℕ) (next : TimeoutCache ℕ ℕ),
      run (worldStep 10 2) (World.start 0) [(0, .insert 1 10), (3, .insert 2 20)] = some world ∧
      world.cache.insert 10 2 1 11 5 = some next ∧
      next.find 1 = some ⟨1, 11, 15⟩ ∧ next.find 2 = world.cache.find 2 := by
  obtain ⟨world, reached⟩ : ∃ world : World ℕ ℕ,
      run (worldStep 10 2) (World.start 0) [(0, .insert 1 10), (3, .insert 2 20)] = some world :=
    ⟨_, rfl⟩
  obtain ⟨next, performed, own, kept⟩ := timeoutCache_update_iff 10 2 0 _ world reached 1 11 5
  refine ⟨world, next, reached, performed, own, kept.mpr ?_ 2 (by decide)⟩
  cases reached
  rintro - - _ ⟨⟩
  rfl

/-- An update of the newest entry of a full cache drops the oldest one. -/
theorem update_dropsOldest :
    ∃ (world : World ℕ ℕ) (next : TimeoutCache ℕ ℕ),
      run (worldStep 10 2) (World.start 0) [(0, .insert 1 10), (3, .insert 2 20)] = some world ∧
      world.cache.find 1 = some ⟨1, 10, 10⟩ ∧ world.cache.find 2 = some ⟨2, 20, 13⟩ ∧
      world.cache.insert 10 2 2 21 5 = some next ∧ next.find 1 = none :=
  ⟨_, _, rfl, rfl, rfl, rfl, rfl⟩

end TimeoutCache

end NativeLibs.Cache
