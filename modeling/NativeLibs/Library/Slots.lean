/-
This file is the project's library on a sequence that is kept in numbered
slots. Slot 0 holds the newest part and higher numbers hold older parts, so the
sequence is read from the highest slot down. New elements go to the end of slot
0. A slot may move up by one: when the slot above it is empty the sequence is
unchanged, and when that slot is the highest one its part is lost, which is the
oldest. Either way what remains is a suffix.

The last part is about slots that may be missing: moving one slot after another,
from the highest down, shifts them all by one.
-/

import Mathlib.Data.List.Infix
import Mathlib.Logic.Function.Basic
import Mathlib.Tactic

namespace NativeLibs.Library

variable {Element : Type*}

/-- The slots below a bound, read from the highest down to slot 0. -/
def readDown (slot : ℕ → List Element) : ℕ → List Element
  | 0 => []
  | bound + 1 => slot bound ++ readDown slot bound

/-- Slot `index` moves up by one, over whatever is there. -/
def moveUp (slot : ℕ → List Element) (index : ℕ) : ℕ → List Element :=
  Function.update (Function.update slot index []) (index + 1) (slot index)

theorem readDown_congr {slot other : ℕ → List Element} {bound : ℕ}
    (same : ∀ index < bound, slot index = other index) :
    readDown slot bound = readDown other bound := by
  induction bound with
  | zero => rfl
  | succ bound inductionHypothesis =>
    rw [readDown, readDown, same bound (Nat.lt_succ_self bound),
      inductionHypothesis fun index below => same index (below.trans (Nat.lt_succ_self bound))]

theorem readDown_append (slot : ℕ → List Element) (added : List Element) (bound : ℕ) :
    readDown (Function.update slot 0 (slot 0 ++ added)) (bound + 1) =
      readDown slot (bound + 1) ++ added := by
  induction bound with
  | zero => simp only [readDown, Function.update_self, List.append_nil]
  | succ bound inductionHypothesis =>
    rw [readDown, inductionHypothesis, Function.update_of_ne (Nat.succ_ne_zero bound),
      readDown.eq_2 slot (bound + 1), List.append_assoc]

theorem readDown_moveUp_pair (slot : ℕ → List Element) (index : ℕ) :
    readDown (moveUp slot index) (index + 2) = readDown slot (index + 1) := by
  have below : readDown (moveUp slot index) index = readDown slot index :=
    readDown_congr fun lower smaller => by
      rw [moveUp, Function.update_of_ne (Nat.ne_of_lt (smaller.trans (Nat.lt_succ_self index))),
        Function.update_of_ne (Nat.ne_of_lt smaller)]
  have target : moveUp slot index (index + 1) = slot index := Function.update_self _ _ _
  have source : moveUp slot index index = [] := by
    rw [moveUp, Function.update_of_ne (Nat.ne_of_lt (Nat.lt_succ_self index)),
      Function.update_self]
  rw [readDown, readDown, readDown, below, target, source, List.nil_append]

theorem readDown_moveUp_of_empty {slot : ℕ → List Element} {index : ℕ}
    (empty : slot (index + 1) = []) (above : ℕ) :
    readDown (moveUp slot index) (index + 2 + above) = readDown slot (index + 2 + above) := by
  induction above with
  | zero =>
    rw [Nat.add_zero, readDown_moveUp_pair, readDown.eq_2 slot (index + 1), empty,
      List.nil_append]
  | succ above inductionHypothesis =>
    have higher : moveUp slot index (index + 2 + above) = slot (index + 2 + above) := by
      rw [moveUp, Function.update_of_ne (by omega), Function.update_of_ne (by omega)]
    rw [← Nat.add_assoc, readDown, readDown, higher, inductionHypothesis]

theorem readDown_moveUp_suffix {slot : ℕ → List Element} {index bound : ℕ}
    (inside : index + 1 < bound) (clear : slot (index + 1) = [] ∨ index + 2 = bound) :
    readDown (moveUp slot index) bound <:+ readDown slot bound := by
  rcases clear with empty | highest
  · obtain ⟨above, rfl⟩ := Nat.exists_eq_add_of_le (Nat.succ_le_of_lt inside)
    rw [readDown_moveUp_of_empty empty]
  · rw [← highest, readDown_moveUp_pair]
    exact List.suffix_append _ _

/-! ### Slots that may be missing -/

/-- Slot `index` moves up by one and is missing afterwards. -/
def moveSlot (slot : ℕ → Option Element) (index : ℕ) : ℕ → Option Element :=
  Function.update (Function.update slot index none) (index + 1) (slot index)

/-- The slots from `low` on and below `high` are moved up by one. -/
def shiftUp (slot : ℕ → Option Element) (low high : ℕ) (index : ℕ) : Option Element :=
  if low < index ∧ index ≤ high then slot (index - 1)
  else if index = low ∧ low < high then none
  else slot index

theorem moveSlot_of_missing {slot : ℕ → Option Element} {index : ℕ} (missing : slot index = none)
    (next : slot (index + 1) = none) : moveSlot slot index = slot := by
  have cleared : Function.update slot index none = slot :=
    Function.update_eq_self_iff.mpr missing.symm
  rw [moveSlot, missing, cleared, Function.update_eq_self_iff.mpr next.symm]

theorem shiftUp_self (slot : ℕ → Option Element) (low : ℕ) : shiftUp slot low low = slot := by
  funext index
  rw [shiftUp, if_neg (by omega), if_neg (by omega)]

theorem moveSlot_shiftUp (slot : ℕ → Option Element) {low high : ℕ} (below : low < high) :
    moveSlot (shiftUp slot (low + 1) high) low = shiftUp slot low high := by
  have moved : shiftUp slot (low + 1) high low = slot low := by
    rw [shiftUp, if_neg (by omega), if_neg (by omega)]
  funext index
  rw [moveSlot, moved]
  by_cases target : index = low + 1
  · rw [target, Function.update_self, shiftUp, if_pos (by omega), Nat.add_sub_cancel]
  · rw [Function.update_of_ne target]
    by_cases source : index = low
    · rw [source, Function.update_self, shiftUp, if_neg (by omega), if_pos (by omega)]
    · rw [Function.update_of_ne source, shiftUp, shiftUp]
      by_cases higher : low < index ∧ index ≤ high
      · rw [if_pos higher, if_pos (by omega)]
      · rw [if_neg higher, if_neg (by omega), if_neg (by omega), if_neg (by omega)]

end NativeLibs.Library
