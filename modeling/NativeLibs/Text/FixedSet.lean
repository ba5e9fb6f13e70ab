/-
This file models `lookup_string_in_fixed_set.cc`, which searches the bytes of a compiled
list of names, and `is_tld`.

A pointer into the bytes is a position, and `nullptr` is `none`. A function gives no
result if it reads a byte outside of the array or reads through a null pointer, or if one
of its loops over the offsets of a node does not end within as many rounds as the array
has bytes. Whether a `char` is signed depends on the platform.
-/

import NativeLibs.Text.Bytes

namespace NativeLibs.FixedSet

/-- The byte at a position. -/
def byteAt (graph : Bytes) (pos : ℕ) : Option ℕ := graph[pos]?.map UInt8.toNat

/-- `GetNextOffset`: the result, `*pos` and `*offset`. -/
def getNextOffset (graph : Bytes) (pos : Option ℕ) (offset : ℕ) :
    Option (Bool × Option ℕ × ℕ) :=
  match pos with
  | none => some (false, none, offset)
  | some pos => do
    let first ← byteAt graph pos
    let (distance, bytesConsumed) ←
      if first &&& 0x60 = 0x60 then do
        let second ← byteAt graph (pos + 1)
        let third ← byteAt graph (pos + 2)
        some ((first &&& 0x1F) <<< 16 ||| second <<< 8 ||| third, 3)
      else if first &&& 0x60 = 0x40 then do
        let second ← byteAt graph (pos + 1)
        some ((first &&& 0x1F) <<< 8 ||| second, 2)
      else some (first &&& 0x3F, 1)
    some (true, if first &&& 0x80 ≠ 0 then none else some (pos + bytesConsumed), offset + distance)

/-- `IsEOL`. -/
def isEOL (graph : Bytes) (offset : ℕ) : Option Bool := do
  let byte ← byteAt graph offset
  some (byte &&& 0x80 ≠ 0)

/-- `IsMatch`. -/
def isMatch (graph : Bytes) (offset : ℕ) (key : ℤ) : Option Bool := do
  let byte ← byteAt graph offset
  some (((byte &&& 0x7F : ℕ) : ℤ) = key)

/-- `GetReturnValue`. -/
def getReturnValue (graph : Bytes) (offset : ℕ) : Option (Option ℕ) := do
  let byte ← byteAt graph offset
  some (if byte &&& 0xE0 = 0x80 then some (byte &&& 0x1F) else none)

/-- A loop `while (GetNextOffset(&pos, &offset))` that is left when the visit of an offset
finds something. -/
def whileOffsets {Result : Type} (graph : Bytes) (visit : ℕ → Option (Option Result)) :
    ℕ → Option ℕ → ℕ → Option (Option Result)
  | 0, _, _ => none
  | rounds + 1, pos, offset => do
    let (read, pos, offset) ← getNextOffset graph pos offset
    if read then
      match ← visit offset with
      | some result => some (some result)
      | none => whileOffsets graph visit rounds pos offset
    else some none

/-- `pos_` and `pos_is_label_character_` of a `FixedSetIncrementalLookup`. -/
structure Lookup where
  pos : Option ℕ
  posIsLabelCharacter : Bool
  deriving DecidableEq

/-- The constructor. -/
def start : Lookup := ⟨some 0, false⟩

/-- The comparison of a label character in `Advance`: the next state if it matches. -/
def matchLabel (graph : Bytes) (input : ℤ) (offset : ℕ) : Option (Option Lookup) := do
  let isLastCharInLabel ← isEOL graph offset
  let matched ← isMatch graph offset input
  some (if matched then some ⟨some (offset + 1), !isLastCharInLabel⟩ else none)

/-- `Advance`. -/
def advance (graph : Bytes) (state : Lookup) (input : ℤ) : Option (Bool × Lookup) :=
  match state.pos with
  | none => some (false, state)
  | some pos => do
    let matched ←
      if input ≥ 0x20 then
        if state.posIsLabelCharacter then matchLabel graph input pos
        else whileOffsets graph (matchLabel graph input) (graph.length + 1) (some pos) pos
      else some none
    match matched with
    | some state => some (true, state)
    | none => some (false, ⟨none, false⟩)

/-- `kDafsaNotFound`. -/
def dafsaNotFound : ℤ := -1

/-- `kDafsaFound`. -/
def dafsaFound : ℤ := 0

/-- `GetResultForCurrentSequence`. -/
def getResultForCurrentSequence (graph : Bytes) (state : Lookup) : Option ℤ := do
  let value ←
    if state.posIsLabelCharacter then do
      let pos ← state.pos
      getReturnValue graph pos
    else
      whileOffsets graph (getReturnValue graph) (graph.length + 1) state.pos (state.pos.getD 0)
  match value with
  | some value => some value
  | none => some dafsaNotFound

/-- The value of a `char`. -/
def charValue (signed : Bool) (byte : UInt8) : ℤ :=
  if signed then byte.toInt8.toInt else byte.toNat

/-- The loop of `LookupStringInFixedSet` and what it returns. -/
def lookupLoop (graph : Bytes) (signed : Bool) : Bytes → Lookup → Option ℤ
  | [], state => getResultForCurrentSequence graph state
  | byte :: key, state => do
    let (advanced, state) ← advance graph state (charValue signed byte)
    if advanced then lookupLoop graph signed key state else some dafsaNotFound

/-- `LookupStringInFixedSet`. -/
def lookupStringInFixedSet (graph : Bytes) (signed : Bool) (key : Bytes) : Option ℤ :=
  lookupLoop graph signed key start

/-- `is_tld`, with the bytes of `effective_tld_names.inc`. -/
def isTld (graph : Bytes) (signed : Bool) (domain : Bytes) : Option Bool := do
  let result ← lookupStringInFixedSet graph signed domain
  some (dafsaFound = result)

end NativeLibs.FixedSet
