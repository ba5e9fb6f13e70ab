/-
This file is the project's library on linked containers with stable iterators.
A container is a sequence of nodes, and an iterator is the handle of its node,
which no other node of the container ever gets. Moving, erasing or changing a
node goes through its handle and has no result if the node is gone.

A container is often kept together with a map from the keys of its values to
the handles of their nodes. `Indexed` says that the two agree, and there is one
rule for each way in which they are changed together.
-/

import Mathlib.Data.List.AList
import Mathlib.Data.List.TakeWhile
import NativeLibs.Library.Pairs

namespace NativeLibs.Library

/-- The nodes of a container in order, with the handle the next node gets. -/
structure NodeList (Value : Type*) where
  nodes : List (ℕ × Value)
  next : ℕ
  distinct : (nodes.map Prod.fst).Nodup
  fresh : ∀ node ∈ nodes, node.1 < next

namespace NodeList

variable {Value : Type*}

/-! ### Reading -/

/-- The values in order. -/
def values (list : NodeList Value) : List Value := list.nodes.map Prod.snd

/-- The value behind an iterator. -/
def valueAt (list : NodeList Value) (handle : ℕ) : Option Value := valueOf list.nodes handle

/-- The iterator of the first node. -/
def front (list : NodeList Value) : Option ℕ := list.nodes.head?.map Prod.fst

/-- The value of the last node. -/
def back (list : NodeList Value) : Option Value := list.nodes.getLast?.map Prod.snd

/-- The nodes other than one. -/
def others (list : NodeList Value) (handle : ℕ) : List (ℕ × Value) := without list.nodes handle

theorem mem_others (list : NodeList Value) (handle : ℕ) (node : ℕ × Value) :
    node ∈ list.others handle ↔ node ∈ list.nodes ∧ node.1 ≠ handle :=
  mem_without list.nodes handle node

theorem others_fresh (list : NodeList Value) (handle : ℕ) :
    ∀ node ∈ list.others handle, node.1 < list.next :=
  fun node member => list.fresh node ((list.mem_others handle node).mp member).1

theorem valueAt_eq_some_iff (list : NodeList Value) (handle : ℕ) (value : Value) :
    list.valueAt handle = some value ↔ (handle, value) ∈ list.nodes :=
  valueOf_eq_some_iff list.distinct handle value

/-! ### Writing -/

/-- A container without nodes. -/
def empty : NodeList Value := ⟨[], 0, List.nodup_nil, fun _ member => nomatch member⟩

/-- `clear`: all nodes are gone, and their handles are not given out again. -/
def clear (list : NodeList Value) : NodeList Value :=
  ⟨[], list.next, List.nodup_nil, fun _ member => nomatch member⟩

/-- The nodes with a new one behind those at the front whose values have a property. -/
def placed (list : NodeList Value) (before : Value → Bool) (value : Value) : List (ℕ × Value) :=
  list.nodes.takeWhile (fun node => before node.2) ++
    (list.next, value) :: list.nodes.dropWhile (fun node => before node.2)

theorem placed_perm (list : NodeList Value) (before : Value → Bool) (value : Value) :
    (list.placed before value).Perm ((list.next, value) :: list.nodes) := by
  refine List.perm_middle.trans ?_
  rw [List.takeWhile_append_dropWhile]

/-- `emplace`: the new node's iterator is `next`. -/
def place (list : NodeList Value) (before : Value → Bool) (value : Value) : NodeList Value where
  nodes := list.placed before value
  next := list.next + 1
  distinct := by
    rw [((list.placed_perm before value).map Prod.fst).nodup_iff, List.map_cons]
    refine List.nodup_cons.mpr ⟨fun member => ?_, list.distinct⟩
    obtain ⟨node, inList, same⟩ := List.mem_map.mp member
    exact absurd same (list.fresh node inList).ne
  fresh := by
    intro node member
    rw [(list.placed_perm before value).mem_iff] at member
    rcases List.mem_cons.mp member with rfl | inList
    · exact Nat.lt_succ_self _
    · exact Nat.lt_succ_of_lt (list.fresh node inList)

/-- A new first node. -/
def pushFront (list : NodeList Value) (value : Value) : NodeList Value :=
  list.place (fun _ => false) value

/-- `erase` of the node of an iterator. -/
def erase (list : NodeList Value) (handle : ℕ) : Option (NodeList Value) :=
  match list.valueAt handle with
  | none => none
  | some _ => some ⟨list.others handle, list.next, without_distinct list.distinct handle,
      list.others_fresh handle⟩

/-- `pop_back`. -/
def popBack (list : NodeList Value) : Option (NodeList Value) :=
  if list.nodes = [] then none
  else some ⟨list.nodes.dropLast, list.next,
    list.distinct.sublist ((List.dropLast_sublist _).map Prod.fst),
    fun node member => list.fresh node (List.mem_of_mem_dropLast member)⟩

/-- The node of an iterator is changed in place. -/
def modify (list : NodeList Value) (handle : ℕ) (change : Value → Value) :
    Option (NodeList Value) :=
  match list.valueAt handle with
  | none => none
  | some _ => some
    { nodes := list.nodes.map fun node => (node.1, if node.1 = handle then change node.2 else node.2)
      next := list.next
      distinct := by
        rw [List.map_map]
        exact list.distinct
      fresh := by
        intro node member
        obtain ⟨original, inList, rfl⟩ := List.mem_map.mp member
        exact list.fresh original inList }

/-- The node of an iterator is spliced to the front. -/
def moveFront (list : NodeList Value) (handle : ℕ) : Option (NodeList Value) :=
  match found : list.valueAt handle with
  | none => none
  | some value => some
    { nodes := (handle, value) :: list.others handle
      next := list.next
      distinct := cons_without_distinct list.distinct handle value
      fresh := by
        intro node member
        rcases List.mem_cons.mp member with rfl | other
        · exact list.fresh _ ((list.valueAt_eq_some_iff handle value).mp found)
        · exact list.others_fresh handle node other }

/-- The node of an iterator is spliced to the back. -/
def moveBack (list : NodeList Value) (handle : ℕ) : Option (NodeList Value) :=
  match found : list.valueAt handle with
  | none => none
  | some value => some
    { nodes := list.others handle ++ [(handle, value)]
      next := list.next
      distinct := without_append_distinct list.distinct handle value
      fresh := by
        intro node member
        rcases List.mem_append.mp member with other | same
        · exact list.others_fresh handle node other
        · rw [List.mem_singleton.mp same]
          exact list.fresh _ ((list.valueAt_eq_some_iff handle value).mp found) }

/-! ### What writing does to the nodes -/

theorem erase_of_mem (list : NodeList Value) (handle : ℕ) (value : Value)
    (member : (handle, value) ∈ list.nodes) :
    ∃ next, list.erase handle = some next ∧ next.nodes = list.others handle := by
  rw [erase, (list.valueAt_eq_some_iff handle value).mpr member]
  exact ⟨_, rfl, rfl⟩

theorem popBack_of_ne_nil (list : NodeList Value) (nonempty : list.nodes ≠ []) :
    ∃ next, list.popBack = some next ∧ next.nodes = list.nodes.dropLast := by
  rw [popBack, if_neg nonempty]
  exact ⟨_, rfl, rfl⟩

theorem modify_of_mem (list : NodeList Value) (handle : ℕ) (change : Value → Value) (value : Value)
    (member : (handle, value) ∈ list.nodes) :
    ∃ next, list.modify handle change = some next ∧ next.nodes = list.nodes.map fun node =>
      (node.1, if node.1 = handle then change node.2 else node.2) := by
  rw [modify, (list.valueAt_eq_some_iff handle value).mpr member]
  exact ⟨_, rfl, rfl⟩

theorem moveFront_of_mem (list : NodeList Value) (handle : ℕ) (value : Value)
    (member : (handle, value) ∈ list.nodes) :
    ∃ next, list.moveFront handle = some next ∧
      next.nodes = (handle, value) :: list.others handle := by
  have stored := (list.valueAt_eq_some_iff handle value).mpr member
  unfold moveFront
  split
  · rename_i missing
    rw [stored] at missing
    cases missing
  · rename_i other found
    rw [stored] at found
    cases found
    exact ⟨_, rfl, rfl⟩

theorem moveBack_of_mem (list : NodeList Value) (handle : ℕ) (value : Value)
    (member : (handle, value) ∈ list.nodes) :
    ∃ next, list.moveBack handle = some next ∧
      next.nodes = list.others handle ++ [(handle, value)] := by
  have stored := (list.valueAt_eq_some_iff handle value).mpr member
  unfold moveBack
  split
  · rename_i missing
    rw [stored] at missing
    cases missing
  · rename_i other found
    rw [stored] at found
    cases found
    exact ⟨_, rfl, rfl⟩

theorem mem_place (list : NodeList Value) (before : Value → Bool) (value : Value)
    (node : ℕ × Value) :
    node ∈ (list.place before value).nodes ↔ node = (list.next, value) ∨ node ∈ list.nodes := by
  rw [show (list.place before value).nodes = list.placed before value from rfl,
    (list.placed_perm before value).mem_iff, List.mem_cons]

theorem mem_others_place (list : NodeList Value) (before : Value → Bool) (value : Value)
    (old : ℕ × Value) (stored : old ∈ list.nodes) (node : ℕ × Value) :
    node ∈ (list.place before value).others old.1 ↔
      node = (list.next, value) ∨ node ∈ list.others old.1 := by
  have different : list.next ≠ old.1 := (list.fresh old stored).ne'
  rw [mem_others, mem_others, mem_place, or_and_right]
  refine or_congr_left (and_iff_left_of_imp ?_)
  rintro rfl
  exact different

theorem eq_false_of_mem_dropWhile {Element : Type*} (holds : Element → Bool)
    (elements : List Element)
    (closed : elements.Pairwise fun element later => holds later = true → holds element = true)
    (element : Element) (member : element ∈ elements.dropWhile holds) : holds element = false := by
  induction elements with
  | nil => cases member
  | cons first rest inductionHypothesis =>
    obtain ⟨fromFirst, restClosed⟩ := List.pairwise_cons.mp closed
    cases firstHolds : holds first with
    | true =>
      rw [List.dropWhile_cons_of_pos firstHolds] at member
      exact inductionHypothesis restClosed member
    | false =>
      rw [List.dropWhile_cons_of_neg (Bool.eq_false_iff.mp firstHolds)] at member
      refine Bool.eq_false_iff.mpr fun elementHolds => ?_
      rcases List.mem_cons.mp member with rfl | inRest
      · exact Bool.eq_false_iff.mp firstHolds elementHolds
      · exact Bool.eq_false_iff.mp firstHolds (fromFirst element inRest elementHolds)

theorem place_sorted (list : NodeList Value) (rank : Value → ℤ) (value : Value)
    (sorted : list.nodes.Pairwise fun node later => rank node.2 ≤ rank later.2) :
    (list.place (fun other => rank other ≤ rank value) value).nodes.Pairwise
      fun node later => rank node.2 ≤ rank later.2 := by
  show (list.placed (fun other => rank other ≤ rank value) value).Pairwise _
  have closed : list.nodes.Pairwise fun node later =>
      decide (rank later.2 ≤ rank value) = true → decide (rank node.2 ≤ rank value) = true := by
    refine sorted.imp fun order notLater => ?_
    exact decide_eq_true (order.trans (of_decide_eq_true notLater))
  have behind : ∀ node ∈ list.nodes.dropWhile (fun node => decide (rank node.2 ≤ rank value)),
      rank value ≤ rank node.2 := by
    intro node member
    have later := of_decide_eq_false (eq_false_of_mem_dropWhile _ _ closed node member)
    omega
  rw [← List.takeWhile_append_dropWhile (p := fun node : ℕ × Value =>
    decide (rank node.2 ≤ rank value)) (l := list.nodes), List.pairwise_append] at sorted
  obtain ⟨frontSorted, backSorted, across⟩ := sorted
  refine List.pairwise_append.mpr ⟨frontSorted, List.pairwise_cons.mpr ⟨behind, backSorted⟩, ?_⟩
  intro node inFront other inBack
  rcases List.mem_cons.mp inBack with rfl | inRest
  · have notLater := List.mem_takeWhile_imp
      (p := fun node : ℕ × Value => decide (rank node.2 ≤ rank value)) inFront
    exact of_decide_eq_true notLater
  · exact across node inFront other inRest

theorem pushFront_nodes (list : NodeList Value) (value : Value) :
    (list.pushFront value).nodes = (list.next, value) :: list.nodes := by
  show list.placed (fun _ => false) value = _
  unfold placed
  cases list.nodes with
  | nil => rfl
  | cons first rest => rfl

theorem others_of_modify {list next : NodeList Value} (handle : ℕ) (change : Value → Value)
    (nodes : next.nodes = list.nodes.map fun node =>
      (node.1, if node.1 = handle then change node.2 else node.2)) :
    next.others handle = list.others handle := by
  rw [others, others, nodes, without, without, List.filter_map]
  refine (List.map_congr_left fun node member => ?_).trans (List.map_id _)
  have different : node.1 ≠ handle := of_decide_eq_true (List.mem_filter.mp member).2
  exact Prod.ext rfl (if_neg different)

end NodeList

/-! ### A map of iterators beside the container -/

section Indexed

variable {Key Value : Type*} [DecidableEq Key]

/-- `emplace` of a map: an entry that is there stays. -/
def emplace (index : AList fun _ : Key => ℕ) (key : Key) (handle : ℕ) : AList fun _ : Key => ℕ :=
  if key ∈ index then index else index.insert key handle

/-- The entries of the map are the keys of the nodes, each with the handle of its node. -/
structure Indexed (keyOf : Value → Key) (list : NodeList Value) (index : AList fun _ : Key => ℕ) :
    Prop where
  points : ∀ key handle, index.lookup key = some handle ↔
    ∃ value, (handle, value) ∈ list.nodes ∧ keyOf value = key

namespace Indexed

variable {keyOf : Value → Key} {list next : NodeList Value} {index : AList fun _ : Key => ℕ}

theorem lookup_of_mem (indexed : Indexed keyOf list index) (node : ℕ × Value)
    (member : node ∈ list.nodes) : index.lookup (keyOf node.2) = some node.1 :=
  (indexed.points _ _).mpr ⟨node.2, member, rfl⟩

theorem mem_index_iff (indexed : Indexed keyOf list index) (key : Key) :
    key ∈ index ↔ ∃ node ∈ list.nodes, keyOf node.2 = key := by
  rw [← AList.lookup_isSome, Option.isSome_iff_exists]
  constructor
  · rintro ⟨handle, found⟩
    obtain ⟨value, member, same⟩ := (indexed.points key handle).mp found
    exact ⟨(handle, value), member, same⟩
  · rintro ⟨node, member, rfl⟩
    exact ⟨node.1, indexed.lookup_of_mem node member⟩

theorem handle_eq_iff (indexed : Indexed keyOf list index) (node other : ℕ × Value)
    (member : node ∈ list.nodes) (otherMember : other ∈ list.nodes) :
    node.1 = other.1 ↔ keyOf node.2 = keyOf other.2 := by
  constructor
  · intro same
    rw [List.inj_on_of_nodup_map list.distinct member otherMember same]
  · intro same
    have found := indexed.lookup_of_mem node member
    rw [same, indexed.lookup_of_mem other otherMember] at found
    exact (Option.some.inj found).symm

theorem node_eq_of_key (indexed : Indexed keyOf list index) (node other : ℕ × Value)
    (member : node ∈ list.nodes) (otherMember : other ∈ list.nodes)
    (same : keyOf node.2 = keyOf other.2) : node = other :=
  List.inj_on_of_nodup_map list.distinct member otherMember
    ((indexed.handle_eq_iff node other member otherMember).mpr same)

theorem keys_nodup (indexed : Indexed keyOf list index) : (list.values.map keyOf).Nodup := by
  rw [NodeList.values, List.map_map]
  refine List.Nodup.map_on ?_ (List.Nodup.of_map _ list.distinct)
  intro node member other otherMember same
  exact indexed.node_eq_of_key node other member otherMember same

theorem keys_perm (indexed : Indexed keyOf list index) :
    index.keys.Perm (list.values.map keyOf) := by
  refine (List.perm_ext_iff_of_nodup index.keys_nodup indexed.keys_nodup).mpr fun key => ?_
  rw [← AList.mem_keys, indexed.mem_index_iff, NodeList.values, List.map_map, List.mem_map]
  rfl

theorem others_eq (indexed : Indexed keyOf list index) (node : ℕ × Value)
    (member : node ∈ list.nodes) :
    list.others node.1 = list.nodes.filter fun other => keyOf other.2 ≠ keyOf node.2 := by
  refine List.filter_congr fun other otherMember => ?_
  exact decide_eq_decide.mpr
    (not_congr (indexed.handle_eq_iff other node otherMember member))

theorem values_others (indexed : Indexed keyOf list index) (node : ℕ × Value)
    (member : node ∈ list.nodes) :
    (list.others node.1).map Prod.snd =
      list.values.filter fun value => keyOf value ≠ keyOf node.2 := by
  rw [NodeList.values, List.filter_map, indexed.others_eq node member]
  rfl

theorem congr (indexed : Indexed keyOf list index) {other : AList fun _ : Key => ℕ}
    (sameNodes : ∀ node, node ∈ next.nodes ↔ node ∈ list.nodes)
    (sameEntries : ∀ key, other.lookup key = index.lookup key) : Indexed keyOf next other := by
  refine ⟨fun key handle => ?_⟩
  rw [sameEntries, indexed.points]
  exact exists_congr fun value => and_congr_left' (sameNodes (handle, value)).symm

theorem nil (nodes : list.nodes = []) : Indexed keyOf list (∅ : AList fun _ : Key => ℕ) := by
  refine ⟨fun key handle => ?_⟩
  rw [nodes, AList.lookup_empty]
  exact ⟨fun impossible => (nomatch impossible), fun ⟨_, impossible, _⟩ => (nomatch impossible)⟩

theorem erase (indexed : Indexed keyOf list index) (node : ℕ × Value) (member : node ∈ list.nodes)
    (nodes : next.nodes = list.others node.1) :
    Indexed keyOf next (index.erase (keyOf node.2)) := by
  refine ⟨fun key handle => ?_⟩
  rw [nodes]
  simp only [NodeList.mem_others]
  by_cases same : key = keyOf node.2
  · subst same
    rw [AList.lookup_erase]
    refine ⟨fun impossible => (nomatch impossible), ?_⟩
    rintro ⟨value, ⟨stored, different⟩, sameKey⟩
    exact absurd ((indexed.handle_eq_iff (handle, value) node stored member).mpr sameKey) different
  · rw [AList.lookup_erase_ne same, indexed.points]
    refine exists_congr fun value => ⟨?_, fun both => ⟨both.1.1, both.2⟩⟩
    rintro ⟨stored, rfl⟩
    refine ⟨⟨stored, fun sameHandle => same ?_⟩, rfl⟩
    exact (indexed.handle_eq_iff (handle, value) node stored member).mp sameHandle

theorem place (indexed : Indexed keyOf list index) (handle : ℕ) (value : Value)
    (new : keyOf value ∉ index)
    (nodes : ∀ node, node ∈ next.nodes ↔ node = (handle, value) ∨ node ∈ list.nodes) :
    Indexed keyOf next (index.insert (keyOf value) handle) := by
  refine ⟨fun key target => ?_⟩
  simp only [nodes]
  by_cases same : key = keyOf value
  · subst same
    rw [AList.lookup_insert]
    constructor
    · rintro ⟨⟩
      exact ⟨value, Or.inl rfl, rfl⟩
    · rintro ⟨other, first | stored, sameKey⟩
      · exact congrArg some (congrArg Prod.fst first).symm
      · exact absurd ((indexed.mem_index_iff _).mpr ⟨_, stored, sameKey⟩) new
  · rw [AList.lookup_insert_ne same, indexed.points]
    refine exists_congr fun other => ⟨fun both => ⟨Or.inr both.1, both.2⟩, ?_⟩
    rintro ⟨first | stored, rfl⟩
    · exact absurd (congrArg keyOf (congrArg Prod.snd first)) same
    · exact ⟨stored, rfl⟩

theorem popBack (indexed : Indexed keyOf list index) (earlier : List (ℕ × Value))
    (last : ℕ × Value) (nodes : list.nodes = earlier ++ [last]) (rest : next.nodes = earlier) :
    Indexed keyOf next (index.erase (keyOf last.2)) := by
  have member : last ∈ list.nodes := by
    rw [nodes]
    exact List.mem_concat_self
  exact indexed.erase last member (rest.trans (without_last list.distinct earlier last nodes).symm)

theorem pushFront (indexed : Indexed keyOf list index) (value : Value)
    (new : keyOf value ∉ index) :
    Indexed keyOf (list.pushFront value) (emplace index (keyOf value) list.next) := by
  rw [emplace, if_neg new]
  exact indexed.place _ value new fun node => list.mem_place _ _ node

theorem moveFront (indexed : Indexed keyOf list index) (node : ℕ × Value)
    (member : node ∈ list.nodes) (nodes : next.nodes = node :: list.others node.1) :
    Indexed keyOf next index := by
  refine indexed.congr (fun other => ?_) fun _ => rfl
  rw [nodes, List.mem_cons, NodeList.mem_others]
  constructor
  · rintro (rfl | ⟨stored, -⟩)
    · exact member
    · exact stored
  · intro stored
    by_cases same : other.1 = node.1
    · exact Or.inl (List.inj_on_of_nodup_map list.distinct stored member same)
    · exact Or.inr ⟨stored, same⟩

/-- A node takes the place of another with the same key. -/
theorem replace (indexed : Indexed keyOf list index) (node : ℕ × Value)
    (member : node ∈ list.nodes) (handle : ℕ) (value : Value)
    (sameKey : keyOf value = keyOf node.2)
    (nodes : ∀ other, other ∈ next.nodes ↔
      other = (handle, value) ∨ other ∈ list.others node.1) :
    Indexed keyOf next (index.insert (keyOf node.2) handle) := by
  obtain ⟨rest, -, restNodes⟩ := list.erase_of_mem node.1 node.2 member
  have erased := indexed.erase node member restNodes
  have absent : keyOf value ∉ index.erase (keyOf node.2) := by
    rw [AList.mem_erase, sameKey]
    exact fun both => both.1 rfl
  rw [← restNodes] at nodes
  have placed := erased.place handle value absent nodes
  rw [sameKey] at placed
  refine placed.congr (fun _ => Iff.rfl) fun key => ?_
  by_cases same : key = keyOf node.2
  · rw [same, AList.lookup_insert, AList.lookup_insert]
  · rw [AList.lookup_insert_ne same, AList.lookup_insert_ne same, AList.lookup_erase_ne same]

/-- A change that keeps the key of a node needs no change of the map. -/
theorem modify (indexed : Indexed keyOf list index) (handle : ℕ) (change : Value → Value)
    (keeps : ∀ value, keyOf (change value) = keyOf value)
    (nodes : next.nodes = list.nodes.map fun node =>
      (node.1, if node.1 = handle then change node.2 else node.2)) :
    Indexed keyOf next index := by
  refine ⟨fun key target => ?_⟩
  rw [indexed.points, nodes]
  have sameKey : ∀ node : ℕ × Value,
      keyOf (if node.1 = handle then change node.2 else node.2) = keyOf node.2 := by
    intro node
    split
    · exact keeps node.2
    · rfl
  constructor
  · rintro ⟨value, stored, rfl⟩
    exact ⟨_, List.mem_map.mpr ⟨(target, value), stored, rfl⟩, sameKey (target, value)⟩
  · rintro ⟨value, changed, rfl⟩
    obtain ⟨node, stored, same⟩ := List.mem_map.mp changed
    obtain ⟨rfl, rfl⟩ := Prod.mk.inj same
    exact ⟨node.2, stored, (sameKey node).symm⟩

end Indexed

end Indexed

end NativeLibs.Library
