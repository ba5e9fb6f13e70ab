/-
This file is the project's library on work lists that take elements apart. An
unfolding says of every element either that it stays as it is or by which parts
it is replaced, which are lighter. Taking an element apart as far as possible
leaves its leaves, in the order of the parts.

The rules here speak of the leaves only through the parts of one element: an
induction over the unfolding, order and membership of the leaves, and when
unfolding in one way and then in another is unfolding in a third.
-/

import Mathlib.Data.List.Pairwise
import Mathlib.Tactic

namespace NativeLibs.Library

/-- How elements are taken apart: `none` if an element stays, else its parts. -/
structure Unfolding (Element : Type*) where
  parts : Element → Option (List Element)
  weight : Element → ℕ
  lighter : ∀ element children, parts element = some children →
    ∀ child ∈ children, weight child < weight element

namespace Unfolding

variable {Element : Type*} (unfolding : Unfolding Element)

/-- The elements that are left of an element. -/
def leaves (element : Element) : List Element :=
  match _found : unfolding.parts element with
  | none => [element]
  | some children => children.attach.flatMap fun child => leaves child.1
termination_by unfolding.weight element
decreasing_by exact unfolding.lighter element children _found child.1 child.2

theorem leaves_of_none {element : Element} (stays : unfolding.parts element = none) :
    unfolding.leaves element = [element] := by
  rw [leaves]
  split
  · rfl
  · rename_i children found
    rw [stays] at found
    cases found

theorem leaves_of_some {element : Element} {children : List Element}
    (apart : unfolding.parts element = some children) :
    unfolding.leaves element = children.flatMap unfolding.leaves := by
  rw [leaves]
  split
  · rename_i found
    rw [apart] at found
    cases found
  · rename_i others found
    obtain rfl := Option.some.inj (apart.symm.trans found)
    rw [List.flatMap_subtype (g := unfolding.leaves) (fun _ _ => rfl), List.unattach_attach]

/-- What holds of the elements that stay, and of an element when it holds of its parts, holds of
all elements. -/
theorem induct {motive : Element → Prop}
    (stays : ∀ element, unfolding.parts element = none → motive element)
    (apart : ∀ element children, unfolding.parts element = some children →
      (∀ child ∈ children, motive child) → motive element)
    (element : Element) : motive element := by
  induction weighs : unfolding.weight element using Nat.strong_induction_on generalizing element with
  | _ weight inductionHypothesis =>
    cases found : unfolding.parts element with
    | none => exact stays element found
    | some children =>
      refine apart element children found fun child member => ?_
      exact inductionHypothesis _ (weighs ▸ unfolding.lighter element children found child member)
        child rfl

/-- What relates an element to itself, and to whatever its parts are related to, relates it to its
leaves. -/
theorem related_leaves (related : Element → Element → Prop)
    (itself : ∀ element, unfolding.parts element = none → related element element)
    (through : ∀ element children, unfolding.parts element = some children →
      ∀ child ∈ children, ∀ leaf, related child leaf → related element leaf)
    (element leaf : Element) (member : leaf ∈ unfolding.leaves element) : related element leaf := by
  induction element using unfolding.induct with
  | stays element found =>
    rw [unfolding.leaves_of_none found, List.mem_singleton] at member
    exact member ▸ itself element found
  | apart element children found inductionHypothesis =>
    rw [unfolding.leaves_of_some found] at member
    obtain ⟨child, childMember, leafMember⟩ := List.mem_flatMap.mp member
    exact through element children found child childMember leaf
      (inductionHypothesis child childMember leafMember)

/-- Leaves are in an order that parts are in and that passes to leaves. -/
theorem pairwise_leaves {before : Element → Element → Prop}
    (ordered : ∀ element children, unfolding.parts element = some children →
      children.Pairwise before)
    (inherits : ∀ element other, before element other → ∀ leaf ∈ unfolding.leaves element,
      ∀ otherLeaf ∈ unfolding.leaves other, before leaf otherLeaf)
    (element : Element) : (unfolding.leaves element).Pairwise before := by
  induction element using unfolding.induct with
  | stays element found =>
    rw [unfolding.leaves_of_none found]
    exact List.pairwise_singleton before element
  | apart element children found inductionHypothesis =>
    rw [unfolding.leaves_of_some found]
    refine List.pairwise_flatMap.mpr ⟨inductionHypothesis, ?_⟩
    exact (ordered element children found).imp fun {first second} => inherits first second

/-- Unfolding in one way and then in another is unfolding in a third, if the third takes apart what
the first does and else agrees with the second. -/
theorem leaves_flatMap_leaves (second third : Unfolding Element)
    (apart : ∀ element children, unfolding.parts element = some children →
      third.leaves element = children.flatMap third.leaves)
    (stays : ∀ element, unfolding.parts element = none →
      third.leaves element = second.leaves element)
    (element : Element) :
    (unfolding.leaves element).flatMap second.leaves = third.leaves element := by
  induction element using unfolding.induct with
  | stays element found =>
    rw [unfolding.leaves_of_none found, List.flatMap_singleton, stays element found]
  | apart element children found inductionHypothesis =>
    rw [unfolding.leaves_of_some found, List.flatMap_assoc, apart element children found]
    exact List.flatMap_congr inductionHypothesis

/-- Two unfoldings have the same leaves, if the second takes apart what the first does and else
leaves the element as it is. -/
theorem leaves_eq_leaves (other : Unfolding Element)
    (apart : ∀ element children, unfolding.parts element = some children →
      other.leaves element = children.flatMap other.leaves)
    (stays : ∀ element, unfolding.parts element = none → other.leaves element = [element])
    (element : Element) : unfolding.leaves element = other.leaves element := by
  let nothing : Unfolding Element :=
    ⟨fun _ => none, fun _ => 0, fun _ _ impossible => nomatch impossible⟩
  have identity : nothing.leaves = fun element => [element] :=
    funext fun element => nothing.leaves_of_none rfl
  have composed := unfolding.leaves_flatMap_leaves nothing other apart
    (fun element found => (stays element found).trans (congrFun identity element).symm) element
  rwa [identity, List.flatMap_singleton'] at composed

end Unfolding

end NativeLibs.Library
