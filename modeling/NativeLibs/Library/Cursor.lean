/-
This file is the project's library on cursors that stop at some elements of a
list. A cursor has elements behind it and elements ahead of it. It moves on to
the next element at which it stops, or takes the one it is at out of the list and
then moves on.

In a pass over the list it is decided at every stop whether the element stays.
Whatever is decided, the pass stops once at each of those elements, in order, and
what is left are the elements that were not taken out, in order.
-/

import Mathlib.Data.List.TakeWhile
import NativeLibs.Library.Runs

namespace NativeLibs.Library

/-- A place in a list: the elements behind it, in order, and the elements ahead of it. -/
structure Cursor (Element : Type*) where
  behind : List Element
  ahead : List Element

namespace Cursor

variable {Element : Type*}

/-- The list the cursor is in. -/
def elements (cursor : Cursor Element) : List Element := cursor.behind ++ cursor.ahead

variable (stops : Element → Bool)

/-- The cursor moves on to the first element at which it stops. -/
def settle (cursor : Cursor Element) : Cursor Element where
  behind := cursor.behind ++ cursor.ahead.takeWhile fun element => !stops element
  ahead := cursor.ahead.dropWhile fun element => !stops element

/-- The cursor leaves the element it is at behind. -/
def advance (cursor : Cursor Element) : Option (Cursor Element) :=
  match cursor.ahead with
  | [] => none
  | element :: rest => some (settle stops ⟨cursor.behind ++ [element], rest⟩)

/-- The element the cursor is at leaves the list. -/
def erase (cursor : Cursor Element) : Option (Cursor Element) :=
  match cursor.ahead with
  | [] => none
  | _ :: rest => some (settle stops ⟨cursor.behind, rest⟩)

theorem settle_of_stop (behind : List Element) {element : Element} (rest : List Element)
    (here : stops element = true) :
    settle stops ⟨behind, element :: rest⟩ = ⟨behind, element :: rest⟩ := by
  simp only [settle, List.takeWhile_cons, List.dropWhile_cons, here, Bool.not_true,
    if_neg Bool.false_ne_true, List.append_nil]

theorem settle_of_pass (behind : List Element) {element : Element} (rest : List Element)
    (passes : stops element = false) :
    settle stops ⟨behind, element :: rest⟩ = settle stops ⟨behind ++ [element], rest⟩ := by
  simp only [settle, List.takeWhile_cons, List.dropWhile_cons, passes, Bool.not_false, if_true,
    List.append_assoc, List.singleton_append]

@[simp]
theorem elements_settle (cursor : Cursor Element) :
    (settle stops cursor).elements = cursor.elements := by
  rw [elements, settle, List.append_assoc, List.takeWhile_append_dropWhile, elements]

/-- A cursor that has moved on is at the first element at which it stops. -/
theorem head?_settle (cursor : Cursor Element) :
    (settle stops cursor).ahead.head? = cursor.ahead.find? stops :=
  (List.find?_eq_head?_dropWhile_not stops cursor.ahead).symm

/-! ### Passes -/

/-- A cursor and the elements it has stopped at. -/
structure Pass (Element : Type*) where
  cursor : Cursor Element
  visited : List Element

/-- One round of a pass: the element is looked at, and is taken out or stays. -/
def passStep (pass : Pass Element) (takesOut : Bool) : Option (Pass Element) :=
  pass.cursor.ahead.head?.bind fun element =>
    (if takesOut then pass.cursor.erase stops else pass.cursor.advance stops).map fun next =>
      ⟨next, pass.visited ++ [element]⟩

/-- The marks of the elements at which a cursor stops, in order. -/
def decisions (marked : List (Element × Bool)) : List Bool :=
  (marked.filter fun entry => stops entry.1).map Prod.snd

/-- The elements at which a cursor stops, in order. -/
def stopsOf (marked : List (Element × Bool)) : List Element :=
  (marked.filter fun entry => stops entry.1).map Prod.fst

/-- The elements that are not taken out, in order. -/
def remaining (marked : List (Element × Bool)) : List Element :=
  (marked.filter fun entry => !(stops entry.1 && entry.2)).map Prod.fst

/-- A pass over a list whose elements are marked, those that are to be taken out with `true`. -/
theorem run_passStep (marked : List (Element × Bool)) (behind visited : List Element) :
    run (passStep stops) ⟨settle stops ⟨behind, marked.map Prod.fst⟩, visited⟩
        (decisions stops marked) =
      some ⟨⟨behind ++ remaining stops marked, []⟩, visited ++ stopsOf stops marked⟩ := by
  induction marked generalizing behind visited with
  | nil => simp [decisions, remaining, stopsOf, settle, run]
  | cons entry rest inductionHypothesis =>
    obtain ⟨element, takesOut⟩ := entry
    by_cases here : stops element = true
    · rw [List.map_cons, settle_of_stop stops behind _ here]
      have decided : decisions stops ((element, takesOut) :: rest) =
          takesOut :: decisions stops rest := by simp [decisions, here]
      have visits : stopsOf stops ((element, takesOut) :: rest) = element :: stopsOf stops rest := by
        simp [stopsOf, here]
      rw [decided, visits, run]
      cases takesOut with
      | true =>
        have left : remaining stops ((element, true) :: rest) = remaining stops rest := by
          simp [remaining, here]
        rw [left]
        simpa [passStep, erase] using inductionHypothesis behind (visited ++ [element])
      | false =>
        have left : remaining stops ((element, false) :: rest) = element :: remaining stops rest := by
          simp [remaining]
        rw [left]
        simpa [passStep, advance] using
          inductionHypothesis (behind ++ [element]) (visited ++ [element])
    · have passes : stops element = false := Bool.eq_false_iff.mpr here
      rw [List.map_cons, settle_of_pass stops behind _ passes]
      have decided : decisions stops ((element, takesOut) :: rest) = decisions stops rest := by
        simp [decisions, passes]
      have visits : stopsOf stops ((element, takesOut) :: rest) = stopsOf stops rest := by
        simp [stopsOf, passes]
      have left : remaining stops ((element, takesOut) :: rest) =
          element :: remaining stops rest := by simp [remaining, passes]
      rw [decided, visits, left, inductionHypothesis]
      simp

end Cursor

end NativeLibs.Library
