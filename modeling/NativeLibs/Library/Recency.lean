/-
This file is the project's library on bounded recency lists, the abstract model
of a cache that gives up what was used longest ago. The entries stand in the
order of their last use, the most recent first, each key once, and never more
of them than the capacity. All of this is part of the type.

There are two ways to lose entries to the bound: inserting a key into a full
list, and lowering the capacity. Both keep the most recent entries.
-/

import NativeLibs.Library.Pairs

namespace NativeLibs.Library

/-- Entries with distinct keys, the most recently used first, at most `capacity` of them. -/
structure Recency (Key Value : Type*) where
  capacity : ℕ
  entries : List (Key × Value)
  positive : 0 < capacity
  distinct : (entries.map Prod.fst).Nodup
  fits : entries.length ≤ capacity

namespace Recency

variable {Key Value : Type*}

theorem ext {recency other : Recency Key Value} (capacity : recency.capacity = other.capacity)
    (entries : recency.entries = other.entries) : recency = other := by
  obtain ⟨_, _, _, _, _⟩ := recency
  obtain ⟨_, _, _, _, _⟩ := other
  obtain rfl := capacity
  obtain rfl := entries
  rfl

theorem length_of_full (recency : Recency Key Value) (earlier : List (Key × Value))
    (last : Key × Value) (entries : recency.entries = earlier ++ [last])
    (full : recency.entries.length = recency.capacity) :
    recency.capacity - 1 = earlier.length := by
  rw [← full, entries, List.length_append, List.length_singleton, Nat.add_sub_cancel]

variable [DecidableEq Key]

/-! ### Operations -/

/-- No entries. -/
def new (capacity : ℕ) (positive : 0 < capacity) : Recency Key Value :=
  ⟨capacity, [], positive, List.nodup_nil, Nat.zero_le _⟩

/-- The keys in the order of their last use. -/
def keys (recency : Recency Key Value) : List Key := recency.entries.map Prod.fst

/-- The value of a key. -/
def find (recency : Recency Key Value) (key : Key) : Option Value := valueOf recency.entries key

/-- The entry becomes the most recent one; of the others as many stay as there is room for. -/
def insert (recency : Recency Key Value) (key : Key) (value : Value) : Recency Key Value where
  capacity := recency.capacity
  entries := (key, value) :: (without recency.entries key).take (recency.capacity - 1)
  positive := recency.positive
  distinct := (cons_without_distinct recency.distinct key value).sublist
    (((List.take_sublist _ _).cons_cons (key, value)).map Prod.fst)
  fits := by
    have room := List.length_take_le (recency.capacity - 1) (without recency.entries key)
    have positive := recency.positive
    rw [List.length_cons]
    omega

/-- The keys for which there is no room when a key is inserted. -/
def evictedBy (recency : Recency Key Value) (key : Key) : List Key :=
  ((without recency.entries key).drop (recency.capacity - 1)).map Prod.fst

/-- An entry that is there goes to the end. -/
def moveLast (recency : Recency Key Value) (key : Key) (value : Value)
    (found : recency.find key = some value) : Recency Key Value where
  capacity := recency.capacity
  entries := without recency.entries key ++ [(key, value)]
  positive := recency.positive
  distinct := without_append_distinct recency.distinct key value
  fits := by
    have member := (valueOf_eq_some_iff recency.distinct key value).mp found
    have shorter := length_without_lt recency.entries key (List.mem_map.mpr ⟨_, member, rfl⟩)
    have fits := recency.fits
    rw [List.length_append, List.length_singleton]
    omega

/-- The entry of a key becomes the least recent one. -/
def demote (recency : Recency Key Value) (key : Key) : Option (Recency Key Value) :=
  match found : recency.find key with
  | none => none
  | some value => some (recency.moveLast key value found)

/-- The entry of a key goes. -/
def remove (recency : Recency Key Value) (key : Key) : Recency Key Value where
  capacity := recency.capacity
  entries := without recency.entries key
  positive := recency.positive
  distinct := without_distinct recency.distinct key
  fits := (List.length_filter_le _ _).trans recency.fits

/-- The entries stay whose keys have a property. -/
def retain (recency : Recency Key Value) (keep : Key → Bool) : Recency Key Value where
  capacity := recency.capacity
  entries := recency.entries.filter fun entry => keep entry.1
  positive := recency.positive
  distinct := recency.distinct.sublist (List.filter_sublist.map Prod.fst)
  fits := (List.length_filter_le _ _).trans recency.fits

/-- All entries go. -/
def clear (recency : Recency Key Value) : Recency Key Value :=
  new recency.capacity recency.positive

/-- Under a new bound the most recent entries stay. -/
def setCapacity (recency : Recency Key Value) (capacity : ℕ) (positive : 0 < capacity) :
    Recency Key Value where
  capacity := capacity
  entries := recency.entries.take capacity
  positive := positive
  distinct := recency.distinct.sublist ((List.take_sublist _ _).map Prod.fst)
  fits := List.length_take_le _ _

/-- The keys for which a new bound leaves no room, the least recent first. -/
def evictedAt (recency : Recency Key Value) (capacity : ℕ) : List Key :=
  ((recency.entries.drop capacity).map Prod.fst).reverse

/-! ### Lookups -/

theorem find_eq_some_iff (recency : Recency Key Value) (key : Key) (value : Value) :
    recency.find key = some value ↔ (key, value) ∈ recency.entries :=
  valueOf_eq_some_iff recency.distinct key value

theorem find_eq_none_iff (recency : Recency Key Value) (key : Key) :
    recency.find key = none ↔ key ∉ recency.keys :=
  valueOf_eq_none_iff recency.distinct key

theorem mem_keys_of_find (recency : Recency Key Value) (key : Key) (value : Value)
    (found : recency.find key = some value) : key ∈ recency.keys :=
  List.mem_map.mpr ⟨_, (recency.find_eq_some_iff key value).mp found, rfl⟩

theorem find_of_mem_keys (recency : Recency Key Value) (key : Key)
    (member : key ∈ recency.keys) : ∃ value, recency.find key = some value := by
  refine Option.ne_none_iff_exists'.mp fun missing => ?_
  exact (recency.find_eq_none_iff key).mp missing member

theorem find_retain (recency : Recency Key Value) (keep : Key → Bool) (key : Key) :
    (recency.retain keep).find key = if keep key then recency.find key else none := by
  refine Option.ext fun value => ?_
  rw [find_eq_some_iff, retain, List.mem_filter]
  split
  · rename_i kept
    rw [find_eq_some_iff, and_iff_left kept]
  · rename_i dropped
    exact iff_of_false (fun both => dropped both.2) (fun impossible => nomatch impossible)

theorem retain_remove (recency : Recency Key Value) (key : Key) (keep : Key → Bool) :
    (recency.remove key).retain keep =
      recency.retain fun other => keep other && decide (other ≠ key) :=
  ext rfl List.filter_filter

/-! ### Insertion by cases -/

theorem room_of_mem (recency : Recency Key Value) (key : Key) (member : key ∈ recency.keys) :
    (without recency.entries key).length ≤ recency.capacity - 1 := by
  have shorter := length_without_lt recency.entries key member
  have fits := recency.fits
  omega

theorem evictedBy_of_mem (recency : Recency Key Value) (key : Key)
    (member : key ∈ recency.keys) : recency.evictedBy key = [] := by
  rw [evictedBy, List.drop_of_length_le (recency.room_of_mem key member), List.map_nil]

theorem insert_of_mem (recency : Recency Key Value) (key : Key) (value : Value)
    (member : key ∈ recency.keys) :
    (recency.insert key value).entries = (key, value) :: without recency.entries key :=
  congrArg ((key, value) :: ·) (List.take_of_length_le (recency.room_of_mem key member))

theorem room_of_ne (recency : Recency Key Value) (key : Key) (missing : key ∉ recency.keys)
    (room : recency.entries.length ≠ recency.capacity) :
    (without recency.entries key).length ≤ recency.capacity - 1 := by
  have fits := recency.fits
  rw [without_of_notMem recency.entries key missing]
  omega

theorem evictedBy_of_room (recency : Recency Key Value) (key : Key)
    (missing : key ∉ recency.keys) (room : recency.entries.length ≠ recency.capacity) :
    recency.evictedBy key = [] := by
  rw [evictedBy, List.drop_of_length_le (recency.room_of_ne key missing room), List.map_nil]

theorem insert_of_room (recency : Recency Key Value) (key : Key) (value : Value)
    (missing : key ∉ recency.keys) (room : recency.entries.length ≠ recency.capacity) :
    (recency.insert key value).entries = (key, value) :: recency.entries := by
  refine congrArg ((key, value) :: ·) ?_
  rw [List.take_of_length_le (recency.room_of_ne key missing room),
    without_of_notMem recency.entries key missing]

theorem evictedBy_of_full (recency : Recency Key Value) (key : Key)
    (missing : key ∉ recency.keys) (earlier : List (Key × Value)) (last : Key × Value)
    (entries : recency.entries = earlier ++ [last])
    (full : recency.entries.length = recency.capacity) : recency.evictedBy key = [last.1] := by
  rw [evictedBy, without_of_notMem recency.entries key missing,
    recency.length_of_full earlier last entries full, entries, List.drop_left, List.map_singleton]

theorem insert_of_full (recency : Recency Key Value) (key : Key) (value : Value)
    (missing : key ∉ recency.keys) (earlier : List (Key × Value)) (last : Key × Value)
    (entries : recency.entries = earlier ++ [last])
    (full : recency.entries.length = recency.capacity) :
    (recency.insert key value).entries = (key, value) :: earlier := by
  refine congrArg ((key, value) :: ·) ?_
  rw [without_of_notMem recency.entries key missing,
    recency.length_of_full earlier last entries full, entries, List.take_left]

theorem mem_evictedBy_iff (recency : Recency Key Value) (key other : Key) :
    other ∈ recency.evictedBy key ↔
      key ∉ recency.keys ∧ recency.entries.length = recency.capacity ∧
        ∃ earlier, recency.keys = earlier ++ [other] := by
  by_cases member : key ∈ recency.keys
  · rw [recency.evictedBy_of_mem key member]
    exact iff_of_false List.not_mem_nil fun both => both.1 member
  by_cases full : recency.entries.length = recency.capacity
  · obtain empty | ⟨earlier, last, entries⟩ := List.eq_nil_or_concat recency.entries
    · have positive := recency.positive
      rw [← full, empty] at positive
      exact absurd positive (lt_irrefl 0)
    rw [List.concat_eq_append] at entries
    rw [recency.evictedBy_of_full key member earlier last entries full, List.mem_singleton,
      and_iff_right member, and_iff_right full, keys, entries, List.map_append, List.map_singleton]
    constructor
    · rintro rfl
      exact ⟨_, rfl⟩
    · rintro ⟨front, same⟩
      exact (List.singleton_injective (List.append_inj' same rfl).2).symm
  · rw [recency.evictedBy_of_room key member full]
    exact iff_of_false List.not_mem_nil fun both => full both.2.1

/-! ### Keys after an operation -/

theorem mem_keys_insert (recency : Recency Key Value) (key other : Key) (value : Value) :
    other ∈ (recency.insert key value).keys ↔
      other = key ∨ other ∈ recency.keys ∧ other ∉ recency.evictedBy key := by
  have distinct := without_distinct recency.distinct key
  rw [← List.take_append_drop (recency.capacity - 1) (without recency.entries key),
    List.map_append] at distinct
  have apart := List.disjoint_of_nodup_append distinct
  have either : other ∈ (without recency.entries key).map Prod.fst ↔
      other ∈ ((without recency.entries key).take (recency.capacity - 1)).map Prod.fst ∨
        other ∈ recency.evictedBy key := by
    conv_lhs => rw [← List.take_append_drop (recency.capacity - 1) (without recency.entries key)]
    rw [List.map_append, List.mem_append]
    rfl
  rw [mem_keys_without] at either
  show other ∈ key :: ((without recency.entries key).take (recency.capacity - 1)).map Prod.fst ↔ _
  rw [List.mem_cons]
  by_cases same : other = key
  · exact ⟨fun _ => Or.inl same, fun _ => Or.inl same⟩
  · rw [or_iff_right same, or_iff_right same]
    constructor
    · intro kept
      exact ⟨(either.mpr (Or.inl kept)).1, fun evicted => apart kept evicted⟩
    · rintro ⟨member, notEvicted⟩
      exact (either.mp ⟨member, same⟩).resolve_right notEvicted

theorem mem_keys_insert_of_mem (recency : Recency Key Value) (key other : Key) (value : Value)
    (member : key ∈ recency.keys) :
    other ∈ (recency.insert key value).keys ↔ other ∈ recency.keys := by
  rw [mem_keys_insert, recency.evictedBy_of_mem key member, and_iff_left List.not_mem_nil]
  exact or_iff_right_of_imp fun same => same ▸ member

theorem mem_keys_of_evictedBy (recency : Recency Key Value) (key other : Key)
    (evicted : other ∈ recency.evictedBy key) : other ∈ recency.keys ∧ other ≠ key :=
  (mem_keys_without recency.entries key other).mp
    (((List.drop_sublist _ _).map Prod.fst).subset evicted)

/-- After an insertion the key has the new value, and the keys that stay keep theirs. -/
theorem find_insert (recency : Recency Key Value) (key other : Key) (value : Value) :
    (recency.insert key value).find other =
      if other = key then some value
      else if other ∈ recency.evictedBy key then none
      else recency.find other := by
  split
  · rename_i same
    subst same
    exact (find_eq_some_iff _ _ _).mpr List.mem_cons_self
  · rename_i different
    split
    · rename_i evicted
      rw [find_eq_none_iff, mem_keys_insert]
      rintro (same | ⟨-, notEvicted⟩)
      · exact different same
      · exact notEvicted evicted
    · rename_i notEvicted
      ext found
      rw [find_eq_some_iff, find_eq_some_iff]
      constructor
      · intro member
        rcases List.mem_cons.mp member with same | kept
        · exact absurd (congrArg Prod.fst same) different
        · exact ((mem_without _ _ _).mp ((List.take_sublist _ _).subset kept)).1
      · intro member
        have stays := (mem_without recency.entries key (other, found)).mpr ⟨member, different⟩
        rw [← List.take_append_drop (recency.capacity - 1) (without recency.entries key)] at stays
        rcases List.mem_append.mp stays with kept | dropped
        · exact List.mem_cons_of_mem _ kept
        · exact absurd (List.mem_map.mpr ⟨_, dropped, rfl⟩) notEvicted

theorem mem_keys_remove (recency : Recency Key Value) (key other : Key) :
    other ∈ (recency.remove key).keys ↔ other ∈ recency.keys ∧ other ≠ key :=
  mem_keys_without recency.entries key other

/-- Demoting a key that is there moves its entry and keeps the keys. -/
theorem demote_of_find (recency : Recency Key Value) (key : Key) (value : Value)
    (found : recency.find key = some value) :
    ∃ next, recency.demote key = some next ∧ next.capacity = recency.capacity ∧
      next.entries = without recency.entries key ++ [(key, value)] ∧
      ∀ other, other ∈ next.keys ↔ other ∈ recency.keys := by
  have member := recency.mem_keys_of_find key value found
  unfold demote
  split
  · rename_i missing
    rw [found] at missing
    cases missing
  · rename_i same stored
    rw [found] at stored
    cases stored
    refine ⟨_, rfl, rfl, rfl, fun other => ?_⟩
    rw [keys, moveLast, List.map_append, List.map_singleton, List.mem_append, List.mem_singleton,
      mem_keys_without]
    constructor
    · rintro (⟨inKeys, -⟩ | rfl)
      · exact inKeys
      · exact member
    · intro inKeys
      by_cases equal : other = key
      · exact Or.inr equal
      · exact Or.inl ⟨inKeys, equal⟩

end Recency

end NativeLibs.Library
