/-
This file is the project's library on lists of pairs in which no first component
occurs twice: the second component that belongs to a first one, and the list
without a first component. Both keep the order of the list, which is why they
are not taken from a library of maps.
-/

import Mathlib.Data.List.Nodup
import Mathlib.Tactic

namespace NativeLibs.Library

variable {Key Value : Type*} [DecidableEq Key]

/-- The value paired with a key. -/
def valueOf (pairs : List (Key × Value)) (key : Key) : Option Value :=
  (pairs.find? fun pair => pair.1 = key).map Prod.snd

/-- The pairs with another key. -/
def without (pairs : List (Key × Value)) (key : Key) : List (Key × Value) :=
  pairs.filter fun pair => pair.1 ≠ key

theorem mem_without (pairs : List (Key × Value)) (key : Key) (pair : Key × Value) :
    pair ∈ without pairs key ↔ pair ∈ pairs ∧ pair.1 ≠ key := by
  rw [without, List.mem_filter, decide_eq_true_eq]

theorem notMem_without (pairs : List (Key × Value)) (key : Key) :
    key ∉ (without pairs key).map Prod.fst := by
  intro member
  obtain ⟨pair, inOthers, same⟩ := List.mem_map.mp member
  exact ((mem_without pairs key pair).mp inOthers).2 same

theorem mem_keys_without (pairs : List (Key × Value)) (key other : Key) :
    other ∈ (without pairs key).map Prod.fst ↔ other ∈ pairs.map Prod.fst ∧ other ≠ key := by
  simp only [List.mem_map, mem_without]
  constructor
  · rintro ⟨pair, ⟨member, different⟩, rfl⟩
    exact ⟨⟨pair, member, rfl⟩, different⟩
  · rintro ⟨⟨pair, member, rfl⟩, different⟩
    exact ⟨pair, ⟨member, different⟩, rfl⟩

theorem without_of_notMem (pairs : List (Key × Value)) (key : Key)
    (missing : key ∉ pairs.map Prod.fst) : without pairs key = pairs := by
  refine List.filter_eq_self.mpr fun pair member => decide_eq_true fun same => missing ?_
  rw [← same]
  exact List.mem_map_of_mem member

theorem length_without_lt (pairs : List (Key × Value)) (key : Key)
    (member : key ∈ pairs.map Prod.fst) : (without pairs key).length < pairs.length := by
  obtain ⟨pair, inPairs, rfl⟩ := List.mem_map.mp member
  refine lt_of_le_of_ne (List.length_filter_le _ _) fun same => ?_
  have kept := List.length_filter_eq_length_iff.mp same pair inPairs
  exact of_decide_eq_true kept rfl

variable {pairs : List (Key × Value)}

theorem without_first (distinct : (pairs.map Prod.fst).Nodup) (first : Key × Value)
    (later : List (Key × Value)) (whole : pairs = first :: later) :
    without pairs first.1 = later := by
  subst whole
  have rest := without_of_notMem later first.1 (List.nodup_cons.mp distinct).1
  rw [without] at rest ⊢
  rw [List.filter_cons_of_neg (by simp), rest]

theorem without_last (distinct : (pairs.map Prod.fst).Nodup) (earlier : List (Key × Value))
    (last : Key × Value) (whole : pairs = earlier ++ [last]) : without pairs last.1 = earlier := by
  subst whole
  rw [List.map_append, List.map_singleton] at distinct
  have apart := List.disjoint_of_nodup_append distinct
  have missing : last.1 ∉ earlier.map Prod.fst := fun member =>
    apart member (List.mem_singleton_self _)
  have rest := without_of_notMem earlier last.1 missing
  rw [without] at rest ⊢
  rw [List.filter_append, rest, List.filter_cons_of_neg (by simp), List.filter_nil,
    List.append_nil]

theorem without_distinct (distinct : (pairs.map Prod.fst).Nodup) (key : Key) :
    ((without pairs key).map Prod.fst).Nodup :=
  distinct.sublist (List.filter_sublist.map Prod.fst)

theorem cons_without_distinct (distinct : (pairs.map Prod.fst).Nodup) (key : Key) (value : Value) :
    (((key, value) :: without pairs key).map Prod.fst).Nodup :=
  List.nodup_cons.mpr ⟨notMem_without pairs key, without_distinct distinct key⟩

theorem without_append_distinct (distinct : (pairs.map Prod.fst).Nodup) (key : Key)
    (value : Value) : ((without pairs key ++ [(key, value)]).map Prod.fst).Nodup := by
  rw [List.map_append, List.map_singleton, (List.perm_append_singleton key _).nodup_iff]
  exact cons_without_distinct distinct key value

theorem valueOf_eq_some_iff (distinct : (pairs.map Prod.fst).Nodup) (key : Key) (value : Value) :
    valueOf pairs key = some value ↔ (key, value) ∈ pairs := by
  have spec : ∀ pair, pairs.find? (fun pair => pair.1 = key) = some pair →
      (key, pair.2) ∈ pairs := by
    intro pair found
    have same := List.find?_some found
    rw [decide_eq_true_eq] at same
    rw [← same]
    exact List.mem_of_find?_eq_some found
  rw [valueOf, Option.map_eq_some_iff]
  constructor
  · rintro ⟨pair, found, rfl⟩
    exact spec pair found
  · intro member
    cases found : pairs.find? fun pair => pair.1 = key with
    | none => exact absurd (decide_eq_true rfl) (List.find?_eq_none.mp found _ member)
    | some pair =>
      have same := List.inj_on_of_nodup_map distinct (spec pair found) member rfl
      exact ⟨pair, rfl, congrArg Prod.snd same⟩

theorem valueOf_eq_none_iff (distinct : (pairs.map Prod.fst).Nodup) (key : Key) :
    valueOf pairs key = none ↔ key ∉ pairs.map Prod.fst := by
  rw [← Option.not_isSome_iff_eq_none, Option.isSome_iff_exists, not_iff_not]
  constructor
  · rintro ⟨value, found⟩
    exact List.mem_map.mpr ⟨_, (valueOf_eq_some_iff distinct key value).mp found, rfl⟩
  · intro member
    obtain ⟨pair, inPairs, rfl⟩ := List.mem_map.mp member
    exact ⟨pair.2, (valueOf_eq_some_iff distinct _ _).mpr inPairs⟩

end NativeLibs.Library
