/-
This file models `common/cesu8.cpp`: the conversion of UTF-8 to CESU-8 and the
function that predicts its length. Both are machines that take one byte after
another and remember how many continuation bytes the sequence that has begun
still lacks.

The machines read a text in the pieces of a self-synchronising code. The
conversion writes every piece anew, and the prediction adds up a size for every
piece. All further results speak of the pieces only.
-/

import NativeLibs.Library.Synchronizing
import NativeLibs.Text.Bytes

namespace NativeLibs.Cesu8

open Library

/-! ### The length -/

/-- The variables of the loop in `cesu8_len`. -/
structure Counter where
  currentCharLen : ℕ
  utfCharsRemaining : ℕ
  i : ℕ

/-- The second half of the loop's body: a byte that does not continue a sequence. A `char` is
masked with bits of its low byte only, so its sign does not matter. -/
def Counter.start (state : Counter) (c : UInt8) : Counter :=
  if c &&& 0x80 = 0x0 then { state with i := state.i + 1 }
  else if c &&& 0xe0 = 0xc0 then { state with currentCharLen := 1, utfCharsRemaining := 1 }
  else if c &&& 0xf0 = 0xe0 then { state with currentCharLen := 1, utfCharsRemaining := 2 }
  else if c &&& 0xf8 = 0xf0 then { state with currentCharLen := 1, utfCharsRemaining := 3 }
  else { state with i := state.i + 3, utfCharsRemaining := 0 }

/-- The body of the loop in `cesu8_len`. -/
def Counter.next (state : Counter) (c : UInt8) : Counter :=
  if 0 < state.utfCharsRemaining then
    if c &&& 0xc0 = 0x80 then
      let currentCharLen := state.currentCharLen + 1
      let utfCharsRemaining := state.utfCharsRemaining - 1
      if utfCharsRemaining = 0 then
        let currentCharLen := if currentCharLen = 4 then 6 else currentCharLen
        ⟨currentCharLen, utfCharsRemaining, state.i + currentCharLen⟩
      else ⟨currentCharLen, utfCharsRemaining, state.i⟩
    else Counter.start { state with i := state.i + 3, utfCharsRemaining := 0 } c
  else state.start c

/-- `cesu8_len`. -/
def cesu8Len (utf8 : Bytes) : ℕ := (utf8.foldl Counter.next ⟨0, 0, 0⟩).i

/-! ### The conversion -/

/-- The variables of the loop in `utf8_to_cesu8`. No value has more than 21 bits, so an `int` holds
it and no shift overflows. -/
structure Converter where
  utfCharsRemaining : ℕ
  currentUchar : ℕ
  modifiedUtf : Bytes

/-- The replacement character, as it is written. -/
def replacementChar : Bytes := [0xef, 0xbf, 0xbd]

/-- The bytes of a surrogate pair. -/
def surrogatePair (currentUchar : ℕ) : Bytes :=
  [0xed, UInt8.ofNat (0xa0 + ((currentUchar >>> 16) - 1 &&& 0x0f)),
    UInt8.ofNat (0x80 + (currentUchar >>> 10 &&& 0x3f)),
    0xed, UInt8.ofNat (0xb0 + (currentUchar >>> 6 &&& 0x0f)),
    UInt8.ofNat (0x80 + (currentUchar >>> 0 &&& 0x3f))]

/-- What is written for the value of a complete sequence. -/
def writeUchar (currentUchar : ℕ) : Bytes :=
  if currentUchar ≤ 0x7ff then
    [UInt8.ofNat (0xc0 + (currentUchar >>> 6 &&& 0x1f)),
      UInt8.ofNat (0x80 + (currentUchar &&& 0x3f))]
  else if currentUchar ≤ 0xffff then
    [UInt8.ofNat (0xe0 + (currentUchar >>> 12 &&& 0x0f)),
      UInt8.ofNat (0x80 + (currentUchar >>> 6 &&& 0x3f)),
      UInt8.ofNat (0x80 + (currentUchar &&& 0x3f))]
  else surrogatePair currentUchar

/-- The second half of the loop's body: a byte that does not continue a sequence. -/
def Converter.start (state : Converter) (c : UInt8) : Converter :=
  if c &&& 0x80 = 0x0 then { state with modifiedUtf := state.modifiedUtf ++ [c] }
  else if c &&& 0xe0 = 0xc0 then
    { state with currentUchar := (c &&& 0x1f).toNat, utfCharsRemaining := 1 }
  else if c &&& 0xf0 = 0xe0 then
    { state with currentUchar := (c &&& 0x0f).toNat, utfCharsRemaining := 2 }
  else if c &&& 0xf8 = 0xf0 then
    { state with currentUchar := (c &&& 0x07).toNat, utfCharsRemaining := 3 }
  else { state with modifiedUtf := state.modifiedUtf ++ replacementChar, utfCharsRemaining := 0 }

/-- The body of the loop in `utf8_to_cesu8`. -/
def Converter.next (state : Converter) (c : UInt8) : Converter :=
  if 0 < state.utfCharsRemaining then
    if c &&& 0xc0 = 0x80 then
      let currentUchar := state.currentUchar <<< 6 ||| (c &&& 0x3f).toNat
      let utfCharsRemaining := state.utfCharsRemaining - 1
      if utfCharsRemaining = 0 then
        ⟨utfCharsRemaining, currentUchar, state.modifiedUtf ++ writeUchar currentUchar⟩
      else ⟨utfCharsRemaining, currentUchar, state.modifiedUtf⟩
    else
      Converter.start
        { state with modifiedUtf := state.modifiedUtf ++ replacementChar, utfCharsRemaining := 0 } c
  else state.start c

/-- The loop in `utf8_to_cesu8`. -/
def convert (utf8 : Bytes) : Converter := utf8.foldl Converter.next ⟨0, 0, []⟩

/-- `utf8_to_cesu8`. -/
def utf8ToCesu8 (utf8 : Bytes) : Bytes := (convert utf8).modifiedUtf

/-! ### The code -/

/-- The bytes of UTF-8 as a self-synchronising code. Leads of overlong sequences and of values
beyond Unicode are leads like all others. -/
def utf8Code : SynchronizingCode UInt8 where
  single c := c < 0x80
  announced c :=
    if c < 0xc0 then 0 else if c < 0xe0 then 1 else if c < 0xf0 then 2 else if c < 0xf8 then 3
    else 0
  continues c := 0x80 ≤ c && c < 0xc0
  single_announced c alone := by
    have below : c < 0xc0 := UInt8.lt_trans (of_decide_eq_true alone) (by decide)
    rw [if_pos below]
  single_continues c alone := by
    have below : ¬0x80 ≤ c := UInt8.not_le.mpr (of_decide_eq_true alone)
    rw [decide_eq_false below, Bool.false_and]
  lead_continues c leads := by
    have beyond : ¬c < 0xc0 := by
      intro below
      rw [if_pos below] at leads
      exact absurd leads (Nat.lt_irrefl 0)
    rw [decide_eq_false beyond, Bool.and_false]

/-- The masks of the two loops are ranges of bytes. -/
theorem masks (c : UInt8) :
    (c &&& 0x80 = 0x0 ↔ c.toNat < 0x80) ∧ (c &&& 0xc0 = 0x80 ↔ 0x80 ≤ c.toNat ∧ c.toNat < 0xc0) ∧
      (c &&& 0xe0 = 0xc0 ↔ 0xc0 ≤ c.toNat ∧ c.toNat < 0xe0) ∧
      (c &&& 0xf0 = 0xe0 ↔ 0xe0 ≤ c.toNat ∧ c.toNat < 0xf0) ∧
      (c &&& 0xf8 = 0xf0 ↔ 0xf0 ≤ c.toNat ∧ c.toNat < 0xf8) := by
  revert c
  exact forall_byte (by decide +kernel)

theorem single_iff (c : UInt8) : utf8Code.single c = true ↔ c &&& 0x80 = 0x0 := by
  rw [(masks c).1]
  exact decide_eq_true_iff.trans UInt8.lt_iff_toNat_lt

theorem continues_iff (c : UInt8) : utf8Code.continues c = true ↔ c &&& 0xc0 = 0x80 := by
  rw [(masks c).2.1]
  refine Bool.and_eq_true_iff.trans (and_congr ?_ ?_)
  · exact decide_eq_true_iff.trans UInt8.le_iff_toNat_le
  · exact decide_eq_true_iff.trans UInt8.lt_iff_toNat_lt

theorem announced_eq (c : UInt8) :
    utf8Code.announced c =
      if c &&& 0xe0 = 0xc0 then 1 else if c &&& 0xf0 = 0xe0 then 2
      else if c &&& 0xf8 = 0xf0 then 3 else 0 := by
  obtain ⟨-, -, two, three, four⟩ := masks c
  show (if c < 0xc0 then 0 else if c < 0xe0 then 1 else if c < 0xf0 then 2
    else if c < 0xf8 then 3 else 0) = _
  simp only [two, three, four, UInt8.lt_iff_toNat_lt]
  grind

/-! ### The conversion, piece by piece -/

/-- The bits of a lead that belong to the value. -/
def leadValue (c : UInt8) : ℕ :=
  if c &&& 0xe0 = 0xc0 then (c &&& 0x1f).toNat
  else if c &&& 0xf0 = 0xe0 then (c &&& 0x0f).toNat
  else (c &&& 0x07).toNat

/-- The value of a sequence. -/
def value (sequence : Begun UInt8) : ℕ :=
  sequence.rest.foldl (fun sofar c => sofar <<< 6 ||| (c &&& 0x3f).toNat)
    (leadValue sequence.lead)

/-- What is written for a piece. -/
def written : Piece UInt8 → Bytes
  | .single c => [c]
  | .complete sequence => writeUchar (value sequence)
  | .cut _ => replacementChar
  | .stray _ => replacementChar

theorem value_snoc (lead : UInt8) (rest : Bytes) (c : UInt8) :
    value ⟨lead, rest ++ [c]⟩ = value ⟨lead, rest⟩ <<< 6 ||| (c &&& 0x3f).toNat := by
  rw [value, List.foldl_append]
  rfl

/-- The number of bytes a machine waits for, when a sequence has begun or none has. -/
def Awaits (remaining : ℕ) : Option (Begun UInt8) → Prop
  | none => remaining = 0
  | some begun =>
    0 < remaining ∧ begun.rest.length + remaining = utf8Code.announced begun.lead

theorem Awaits.lead {c : UInt8} (leads : 0 < utf8Code.announced c) :
    Awaits (utf8Code.announced c) (some ⟨c, []⟩) :=
  ⟨leads, Nat.zero_add _⟩

theorem Awaits.last_iff {remaining : ℕ} {begun : Begun UInt8}
    (awaits : Awaits remaining (some begun)) :
    remaining - 1 = 0 ↔ begun.rest.length + 1 = utf8Code.announced begun.lead := by
  obtain ⟨waiting, lacking⟩ := awaits
  omega

theorem Awaits.extend {remaining : ℕ} {begun : Begun UInt8}
    (awaits : Awaits remaining (some begun)) (more : ¬remaining - 1 = 0) (c : UInt8) :
    Awaits (remaining - 1) (some ⟨begun.lead, begun.rest ++ [c]⟩) := by
  obtain ⟨waiting, lacking⟩ := awaits
  refine ⟨Nat.pos_of_ne_zero more, ?_⟩
  show (begun.rest ++ [c]).length + (remaining - 1) = utf8Code.announced begun.lead
  rw [List.length_append, List.length_singleton]
  omega

/-- The variables of the conversion when some pieces are read. -/
structure Converter.Follows (state : Converter) (done : List (Piece UInt8))
    (begun : Option (Begun UInt8)) : Prop where
  modifiedUtf_eq : state.modifiedUtf = done.flatMap written
  awaits : Awaits state.utfCharsRemaining begun
  currentUchar_eq : ∀ sequence ∈ begun, state.currentUchar = value sequence

theorem Converter.start_eq (state : Converter) (c : UInt8) :
    state.start c =
      if utf8Code.single c then { state with modifiedUtf := state.modifiedUtf ++ [c] }
      else if 0 < utf8Code.announced c then
        { state with currentUchar := leadValue c, utfCharsRemaining := utf8Code.announced c }
      else
        { state with modifiedUtf := state.modifiedUtf ++ replacementChar,
                     utfCharsRemaining := 0 } := by
  rw [Converter.start, announced_eq, leadValue]
  simp only [single_iff]
  grind

theorem Converter.start_follows {state : Converter} {done : List (Piece UInt8)}
    (follows : state.Follows done none) (c : UInt8) :
    (state.start c).Follows (done ++ (utf8Code.start c).1) (utf8Code.start c).2 := by
  have noValue : ∀ sequence ∈ (none : Option (Begun UInt8)), state.currentUchar = value sequence :=
    fun _ absent => absurd absent (Option.not_mem_none _)
  rw [Converter.start_eq, SynchronizingCode.start]
  split_ifs with single leads
  · refine ⟨?_, follows.awaits, noValue⟩
    rw [List.flatMap_append, ← follows.modifiedUtf_eq]
    rfl
  · refine ⟨?_, .lead leads, fun sequence here => ?_⟩
    · rw [List.append_nil, ← follows.modifiedUtf_eq]
    · rw [← Option.mem_some.mp here]
      rfl
  · refine ⟨?_, rfl, noValue⟩
    rw [List.flatMap_append, ← follows.modifiedUtf_eq]
    rfl

theorem Converter.next_follows (state : Converter) (done : List (Piece UInt8))
    (begun : Option (Begun UInt8)) (c : UInt8) (follows : state.Follows done begun) :
    (state.next c).Follows (done ++ (utf8Code.step begun c).1) (utf8Code.step begun c).2 := by
  rw [Converter.next]
  cases begun with
  | none =>
    have idle : ¬0 < state.utfCharsRemaining := Nat.not_lt.mpr (Nat.le_zero.mpr follows.awaits)
    rw [if_neg idle]
    exact start_follows follows c
  | some begun =>
    obtain ⟨waiting, -⟩ := follows.awaits
    have sofar := follows.currentUchar_eq begun rfl
    rw [if_pos waiting, SynchronizingCode.step, SynchronizingCode.extend]
    simp only [continues_iff]
    by_cases further : c &&& 0xc0 = 0x80
    · rw [if_pos further, if_pos further, sofar, ← value_snoc]
      by_cases last : state.utfCharsRemaining - 1 = 0
      · rw [if_pos last, if_pos (follows.awaits.last_iff.mp last)]
        refine ⟨?_, last, fun _ absent => absurd absent (Option.not_mem_none _)⟩
        rw [List.flatMap_append, List.flatMap_singleton, ← follows.modifiedUtf_eq]
        rfl
      · rw [if_neg last, if_neg (mt follows.awaits.last_iff.mpr last)]
        refine ⟨?_, follows.awaits.extend last c, fun sequence here => ?_⟩
        · rw [List.append_nil, ← follows.modifiedUtf_eq]
        · rw [← Option.mem_some.mp here]
    · rw [if_neg further, if_neg further, List.append_cons]
      have replaced : Converter.Follows
          ⟨0, state.currentUchar, state.modifiedUtf ++ replacementChar⟩ (done ++ [.cut begun])
          none := by
        refine ⟨?_, rfl, fun _ absent => absurd absent (Option.not_mem_none _)⟩
        rw [List.flatMap_append, ← follows.modifiedUtf_eq]
        rfl
      exact start_follows replaced c

theorem convert_follows (utf8 : Bytes) :
    (convert utf8).Follows (utf8Code.pieces utf8) (utf8Code.scan none utf8).2 := by
  have initially : Converter.Follows ⟨0, 0, []⟩ [] none :=
    ⟨rfl, rfl, fun _ absent => absurd absent (Option.not_mem_none _)⟩
  exact SynchronizingCode.foldl_follows Converter.next_follows initially utf8

/-- The conversion writes every piece of a text, and nothing for a sequence that has begun at its
end. -/
theorem utf8ToCesu8_eq (utf8 : Bytes) :
    utf8ToCesu8 utf8 = (utf8Code.pieces utf8).flatMap written :=
  (convert_follows utf8).modifiedUtf_eq

/-! ### The length, piece by piece -/

/-- What is counted for a piece. -/
def size : Piece UInt8 → ℕ
  | .single _ => 1
  | .complete sequence => if sequence.letters.length = 4 then 6 else sequence.letters.length
  | .cut _ => 3
  | .stray _ => 3

/-- The variables of the prediction when some pieces are read. -/
structure Counter.Follows (state : Counter) (done : List (Piece UInt8))
    (begun : Option (Begun UInt8)) : Prop where
  i_eq : state.i = (done.map size).sum
  awaits : Awaits state.utfCharsRemaining begun
  currentCharLen_eq : ∀ sequence ∈ begun, state.currentCharLen = sequence.letters.length

theorem sum_size_snoc (done : List (Piece UInt8)) (piece : Piece UInt8) :
    ((done ++ [piece]).map size).sum = (done.map size).sum + size piece := by
  rw [List.map_append, List.sum_append, List.map_singleton, List.sum_singleton]

theorem Counter.start_eq (state : Counter) (c : UInt8) :
    state.start c =
      if utf8Code.single c then { state with i := state.i + 1 }
      else if 0 < utf8Code.announced c then
        { state with currentCharLen := 1, utfCharsRemaining := utf8Code.announced c }
      else { state with i := state.i + 3, utfCharsRemaining := 0 } := by
  rw [Counter.start, announced_eq]
  simp only [single_iff]
  grind

theorem Counter.start_follows {state : Counter} {done : List (Piece UInt8)}
    (follows : state.Follows done none) (c : UInt8) :
    (state.start c).Follows (done ++ (utf8Code.start c).1) (utf8Code.start c).2 := by
  have noLength : ∀ sequence ∈ (none : Option (Begun UInt8)),
      state.currentCharLen = sequence.letters.length :=
    fun _ absent => absurd absent (Option.not_mem_none _)
  rw [Counter.start_eq, SynchronizingCode.start]
  split_ifs with single leads
  · refine ⟨?_, follows.awaits, noLength⟩
    rw [sum_size_snoc, ← follows.i_eq]
    rfl
  · -- a lead is counted when its sequence is complete
    refine ⟨?_, .lead leads, fun sequence here => ?_⟩
    · rw [List.append_nil, ← follows.i_eq]
    · rw [← Option.mem_some.mp here]
      rfl
  · refine ⟨?_, rfl, noLength⟩
    rw [sum_size_snoc, ← follows.i_eq]
    rfl

theorem Counter.next_follows (state : Counter) (done : List (Piece UInt8))
    (begun : Option (Begun UInt8)) (c : UInt8) (follows : state.Follows done begun) :
    (state.next c).Follows (done ++ (utf8Code.step begun c).1) (utf8Code.step begun c).2 := by
  rw [Counter.next]
  cases begun with
  | none =>
    have idle : ¬0 < state.utfCharsRemaining := Nat.not_lt.mpr (Nat.le_zero.mpr follows.awaits)
    rw [if_neg idle]
    exact start_follows follows c
  | some begun =>
    obtain ⟨waiting, -⟩ := follows.awaits
    have longer : state.currentCharLen + 1 =
        (Begun.mk begun.lead (begun.rest ++ [c])).letters.length := by
      rw [follows.currentCharLen_eq begun rfl, Begun.letters, Begun.letters, ← List.cons_append,
        List.length_append, List.length_singleton]
    rw [if_pos waiting, SynchronizingCode.step, SynchronizingCode.extend]
    simp only [continues_iff]
    by_cases further : c &&& 0xc0 = 0x80
    · rw [if_pos further, if_pos further, longer]
      by_cases last : state.utfCharsRemaining - 1 = 0
      · rw [if_pos last, if_pos (follows.awaits.last_iff.mp last)]
        refine ⟨?_, last, fun _ absent => absurd absent (Option.not_mem_none _)⟩
        rw [sum_size_snoc, ← follows.i_eq]
        rfl
      · rw [if_neg last, if_neg (mt follows.awaits.last_iff.mpr last)]
        refine ⟨?_, follows.awaits.extend last c, fun sequence here => ?_⟩
        · rw [List.append_nil, ← follows.i_eq]
        · rw [← Option.mem_some.mp here]
    · rw [if_neg further, if_neg further, List.append_cons]
      have replaced : Counter.Follows ⟨state.currentCharLen, 0, state.i + 3⟩
          (done ++ [.cut begun]) none := by
        refine ⟨?_, rfl, fun _ absent => absurd absent (Option.not_mem_none _)⟩
        rw [sum_size_snoc, ← follows.i_eq]
        rfl
      exact start_follows replaced c

theorem cesu8Len_eq (utf8 : Bytes) :
    cesu8Len utf8 = ((utf8Code.pieces utf8).map size).sum := by
  have initially : Counter.Follows ⟨0, 0, 0⟩ [] none :=
    ⟨rfl, rfl, fun _ absent => absurd absent (Option.not_mem_none _)⟩
  exact (SynchronizingCode.foldl_follows Counter.next_follows initially utf8).i_eq

end NativeLibs.Cesu8
