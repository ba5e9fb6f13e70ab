/-
This file is the project's library on what ordered and hashed containers expect of
the comparisons of their items: an equivalence, a strict weak order in which the
equivalent items are the incomparable ones, and a hash that the equivalence
respects. All of it holds of items that are compared through a key with a strict
total order and hashed through the same key.

A sort by a comparison may leave items in any order of which neither is less.
-/

import Mathlib.Data.List.Sort
import Mathlib.Order.RelClasses
import Mathlib.Tactic

namespace NativeLibs.Library

variable {Item Key Code : Type*}

/-- The laws of the comparisons and of the hash of a type of items. -/
structure ContainerLaws (equal less : Item → Item → Prop) (hash : Item → Code) : Prop where
  equivalence : Equivalence equal
  strictWeakOrder : IsStrictWeakOrder Item less
  incomparable_iff : ∀ left right, ¬less left right ∧ ¬less right left ↔ equal left right
  hash_eq : ∀ left right, equal left right → hash left = hash right

/-- Comparisons and hashes of a key obey the laws. -/
theorem containerLaws_of_key {equal less : Item → Item → Prop} {hash : Item → Code} [LT Key]
    [IsStrictTotalOrder Key (· < ·)] (key : Item → Key) (hashKey : Key → Code)
    (equal_iff : ∀ left right, equal left right ↔ key left = key right)
    (less_iff : ∀ left right, less left right ↔ key left < key right)
    (hash_key : ∀ item, hash item = hashKey (key item)) : ContainerLaws equal less hash := by
  have equalKey : equal = fun left right => key left = key right := by
    funext left right
    exact propext (equal_iff left right)
  have lessKey : less = Order.Preimage key (· < ·) := by
    funext left right
    exact propext (less_iff left right)
  subst equalKey lessKey
  have keyOrder : IsStrictWeakOrder Key (· < ·) := isStrictWeakOrder_of_isOrderConnected
  refine ⟨⟨fun _ => rfl, Eq.symm, Eq.trans⟩, inferInstance, fun left right => ?_, ?_⟩
  · refine ⟨fun incomparable => ?_, fun same => ?_⟩
    · exact Std.Trichotomous.trichotomous (r := (· < ·)) _ _ incomparable.1 incomparable.2
    · unfold Order.Preimage
      rw [same]
      exact ⟨Std.Irrefl.irrefl (key right), Std.Irrefl.irrefl (key right)⟩
  · intro left right same
    rw [hash_key, hash_key, same]

/-- A sort by a comparison. -/
structure SortingBy (less : Item → Item → Bool) where
  sort : List Item → List Item
  perm : ∀ items, (sort items).Perm items
  sorted : ∀ items, (sort items).Pairwise fun item other => less other item = false

/-- A sort that can be executed, if not to be less is a total preorder. -/
def SortingBy.insertion (less : Item → Item → Bool)
    (total : ∀ item other, less other item = false ∨ less item other = false)
    (trans : ∀ first second third, less second first = false → less third second = false →
      less third first = false) : SortingBy less where
  sort := List.insertionSort fun item other => less other item = false
  perm := List.perm_insertionSort _
  sorted :=
    haveI : Std.Total fun item other => less other item = false := ⟨total⟩
    haveI : IsTrans Item fun item other => less other item = false := ⟨trans⟩
    List.pairwise_insertionSort _

end NativeLibs.Library
