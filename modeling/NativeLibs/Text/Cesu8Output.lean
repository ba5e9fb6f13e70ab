/-
This file is about what the conversion to CESU-8 writes. Texts of Unicode scalar
values are converted from UTF-8 to CESU-8. Whatever is converted, the output
consists of units of one, two and three bytes, which a second conversion leaves
as they are.

A surrogate pair is written for every value beyond U+FFFF. The source takes it
for granted that no value exceeds U+10FFFF, but four bytes can hold larger ones,
and these are written as if they were 16 planes below.
-/

import NativeLibs.Library.Surrogates
import NativeLibs.Text.Cesu8Sequences

namespace NativeLibs.Cesu8

open Library

/-! ### Sequences for numbers -/

/-- Some bytes as a sequence that begins with the first of them. -/
def sequenceOf (bytes : Bytes) : Begun UInt8 := ⟨bytes.headI, bytes.tail⟩

/-- The sequence of two bytes for a number. -/
def twoSequence (number : ℕ) : Begun UInt8 := sequenceOf (twoBytes number)

/-- The sequence of three bytes for a number. -/
def threeSequence (number : ℕ) : Begun UInt8 := sequenceOf (threeBytes number)

/-- The sequence of four bytes for a number. -/
def fourSequence (number : ℕ) : Begun UInt8 := sequenceOf (fourBytes number)

theorem toNat_continuation (number : ℕ) :
    (UInt8.ofNat (0x80 + number % 0x40)).toNat = 0x80 + number % 0x40 :=
  UInt8.toNat_ofNat_of_lt' (show _ < 256 by omega)

theorem continuation_range (number : ℕ) :
    0x80 ≤ (UInt8.ofNat (0x80 + number % 0x40)).toNat ∧
      (UInt8.ofNat (0x80 + number % 0x40)).toNat < 0xc0 := by
  rw [toNat_continuation]
  omega

theorem twoSequence_spec {number : ℕ} (inRange : number < 0x800) :
    utf8Code.Complete (twoSequence number) ∧ value (twoSequence number) = number := by
  have lead : (UInt8.ofNat (0xc0 + number / 0x40)).toNat = 0xc0 + number / 0x40 :=
    UInt8.toNat_ofNat_of_lt' (show _ < 256 by omega)
  have range : 0xc0 ≤ (UInt8.ofNat (0xc0 + number / 0x40)).toNat ∧
      (UInt8.ofNat (0xc0 + number / 0x40)).toNat < 0xe0 := by omega
  have first := toNat_continuation number
  refine ⟨complete_two range (continuation_range number), ?_⟩
  refine (value_two range (continuation_range number)).trans ?_
  omega

theorem threeSequence_spec {number : ℕ} (inRange : number < 0x10000) :
    utf8Code.Complete (threeSequence number) ∧ value (threeSequence number) = number := by
  have lead : (UInt8.ofNat (0xe0 + number / 0x1000)).toNat = 0xe0 + number / 0x1000 :=
    UInt8.toNat_ofNat_of_lt' (show _ < 256 by omega)
  have range : 0xe0 ≤ (UInt8.ofNat (0xe0 + number / 0x1000)).toNat ∧
      (UInt8.ofNat (0xe0 + number / 0x1000)).toNat < 0xf0 := by omega
  have first := toNat_continuation (number / 0x40)
  have second := toNat_continuation number
  refine ⟨complete_three range (continuation_range _) (continuation_range _), ?_⟩
  refine (value_three range (continuation_range _) (continuation_range _)).trans ?_
  omega

theorem fourSequence_spec {number : ℕ} (inRange : number < 0x200000) :
    utf8Code.Complete (fourSequence number) ∧ value (fourSequence number) = number := by
  have lead : (UInt8.ofNat (0xf0 + number / 0x40000)).toNat = 0xf0 + number / 0x40000 :=
    UInt8.toNat_ofNat_of_lt' (show _ < 256 by omega)
  have range : 0xf0 ≤ (UInt8.ofNat (0xf0 + number / 0x40000)).toNat ∧
      (UInt8.ofNat (0xf0 + number / 0x40000)).toNat < 0xf8 := by omega
  have first := toNat_continuation (number / 0x1000)
  have second := toNat_continuation (number / 0x40)
  have third := toNat_continuation number
  refine ⟨complete_four range (continuation_range _) (continuation_range _)
    (continuation_range _), ?_⟩
  refine (value_four range (continuation_range _) (continuation_range _)
    (continuation_range _)).trans ?_
  omega

/-! ### What is written for a value -/

/-- The value that the surrogate pair of a value beyond `0xffff` stands for: only the low four bits
of its plane, less one, are kept. -/
def pairValue (uchar : ℕ) : ℕ :=
  0x10000 + (uchar / 0x10000 - 1) % 0x10 * 0x10000 + uchar % 0x10000

theorem highSurrogate_pairValue (uchar : ℕ) :
    highSurrogate (pairValue uchar) / 0x1000 = 0x0d ∧
      highSurrogate (pairValue uchar) / 0x40 % 0x40 = 0x20 + (uchar / 0x10000 - 1) % 0x10 ∧
      highSurrogate (pairValue uchar) % 0x40 = uchar / 0x400 % 0x40 := by
  rw [highSurrogate, pairValue]
  omega

theorem lowSurrogate_pairValue (uchar : ℕ) :
    lowSurrogate (pairValue uchar) / 0x1000 = 0x0d ∧
      lowSurrogate (pairValue uchar) / 0x40 % 0x40 = 0x30 + uchar / 0x40 % 0x10 ∧
      lowSurrogate (pairValue uchar) % 0x40 = uchar % 0x40 := by
  rw [lowSurrogate, pairValue]
  omega

theorem surrogatePair_eq (uchar : ℕ) :
    surrogatePair uchar =
      threeBytes (highSurrogate (pairValue uchar)) ++
        threeBytes (lowSurrogate (pairValue uchar)) := by
  have plane : uchar >>> 16 - 1 &&& 0x0f = (uchar / 0x10000 - 1) % 0x10 := by
    rw [Nat.shiftRight_eq_div_pow]
    exact Nat.and_two_pow_sub_one_eq_mod _ 4
  have middle : uchar >>> 10 &&& 0x3f = uchar / 0x400 % 0x40 := by
    rw [Nat.shiftRight_eq_div_pow]
    exact Nat.and_two_pow_sub_one_eq_mod _ 6
  have lower : uchar >>> 6 &&& 0x0f = uchar / 0x40 % 0x10 := by
    rw [Nat.shiftRight_eq_div_pow]
    exact Nat.and_two_pow_sub_one_eq_mod _ 4
  have lowest : uchar >>> 0 &&& 0x3f = uchar % 0x40 := Nat.and_two_pow_sub_one_eq_mod _ 6
  obtain ⟨high1, high2, high3⟩ := highSurrogate_pairValue uchar
  obtain ⟨low1, low2, low3⟩ := lowSurrogate_pairValue uchar
  rw [surrogatePair, plane, middle, lower, lowest, threeBytes, threeBytes, high1, high2, high3,
    low1, low2, low3, ← Nat.add_assoc, ← Nat.add_assoc]
  rfl

theorem decodePair_surrogatePair (uchar : ℕ) :
    decodePair (surrogatePair uchar) = some (pairValue uchar) := by
  have beyond : 0xffff < pairValue uchar := by
    rw [pairValue]
    omega
  have inRange : pairValue uchar ≤ 0x10ffff := by
    rw [pairValue]
    omega
  rw [surrogatePair_eq, decodePair_surrogates beyond inRange]

theorem pairValue_of_le {uchar : ℕ} (beyond : 0xffff < uchar) (inRange : uchar ≤ 0x10ffff) :
    pairValue uchar = uchar := by
  rw [pairValue]
  omega

theorem writeUchar_two {uchar : ℕ} (short : uchar ≤ 0x7ff) :
    writeUchar uchar = twoBytes uchar := by
  have lead : uchar >>> 6 &&& 0x1f = uchar / 0x40 := by
    rw [Nat.shiftRight_eq_div_pow]
    refine (Nat.and_two_pow_sub_one_eq_mod _ 5).trans (Nat.mod_eq_of_lt ?_)
    omega
  have last : uchar &&& 0x3f = uchar % 0x40 := Nat.and_two_pow_sub_one_eq_mod _ 6
  rw [writeUchar, if_pos short, lead, last, twoBytes]

theorem writeUchar_three {uchar : ℕ} (long : 0x7ff < uchar) (short : uchar ≤ 0xffff) :
    writeUchar uchar = threeBytes uchar := by
  have lead : uchar >>> 12 &&& 0x0f = uchar / 0x1000 := by
    rw [Nat.shiftRight_eq_div_pow]
    refine (Nat.and_two_pow_sub_one_eq_mod _ 4).trans (Nat.mod_eq_of_lt ?_)
    omega
  have middle : uchar >>> 6 &&& 0x3f = uchar / 0x40 % 0x40 := by
    rw [Nat.shiftRight_eq_div_pow]
    exact Nat.and_two_pow_sub_one_eq_mod _ 6
  have last : uchar &&& 0x3f = uchar % 0x40 := Nat.and_two_pow_sub_one_eq_mod _ 6
  rw [writeUchar, if_neg (Nat.not_le.mpr long), if_pos short, lead, middle, last, threeBytes]

theorem writeUchar_pair {uchar : ℕ} (beyond : 0xffff < uchar) :
    writeUchar uchar = surrogatePair uchar := by
  have long : ¬uchar ≤ 0x7ff := by omega
  rw [writeUchar, if_neg long, if_neg (Nat.not_le.mpr beyond)]

/-! ### Texts of scalar values -/

theorem utf8ToCesu8_whole {piece : Piece UInt8} (whole : utf8Code.Whole piece) (utf8 : Bytes) :
    utf8ToCesu8 (piece.letters ++ utf8) = written piece ++ utf8ToCesu8 utf8 := by
  rw [utf8ToCesu8_eq, utf8ToCesu8_eq, SynchronizingCode.pieces,
    SynchronizingCode.scan_whole whole, List.flatMap_cons]

theorem exists_piece (char : Char) :
    ∃ piece, utf8Code.Whole piece ∧ piece.letters = String.utf8EncodeChar char ∧
      written piece = cesu8EncodeChar char := by
  have inRange := char_lt char
  rw [cesu8EncodeChar, utf8EncodeChar_eq]
  by_cases one : char.toNat ≤ 0x7f
  · have shorter : char.toNat ≤ 0xffff := by omega
    have ascii : (UInt8.ofNat char.toNat).toNat = char.toNat :=
      UInt8.toNat_ofNat_of_lt' (show _ < 256 by omega)
    rw [if_pos one, if_pos shorter]
    refine ⟨.single (UInt8.ofNat char.toNat), ?_, rfl, rfl⟩
    rw [SynchronizingCode.Whole, single_iff, (masks _).1, ascii]
    omega
  rw [if_neg one]
  by_cases two : char.toNat ≤ 0x7ff
  · have shorter : char.toNat ≤ 0xffff := by omega
    obtain ⟨complete, same⟩ := twoSequence_spec (Nat.lt_succ_of_le two)
    rw [if_pos two, if_pos shorter]
    refine ⟨.complete (twoSequence char.toNat), complete, rfl, ?_⟩
    rw [written, same, writeUchar_two two]
  rw [if_neg two]
  by_cases three : char.toNat ≤ 0xffff
  · obtain ⟨complete, same⟩ := threeSequence_spec (Nat.lt_succ_of_le three)
    rw [if_pos three, if_pos three]
    refine ⟨.complete (threeSequence char.toNat), complete, rfl, ?_⟩
    rw [written, same, writeUchar_three (Nat.not_le.mp two) three]
  · have beyond : 0xffff < char.toNat := Nat.not_le.mp three
    obtain ⟨complete, same⟩ := fourSequence_spec (show char.toNat < 0x200000 by omega)
    rw [if_neg three, if_neg three]
    refine ⟨.complete (fourSequence char.toNat), complete, rfl, ?_⟩
    rw [written, same, writeUchar_pair beyond, surrogatePair_eq,
      pairValue_of_le beyond (Nat.le_of_lt_succ inRange)]

/-- A text in UTF-8 is converted to the text in CESU-8. -/
theorem utf8ToCesu8_encoded (text : List Char) :
    utf8ToCesu8 (text.flatMap String.utf8EncodeChar) = text.flatMap cesu8EncodeChar := by
  induction text with
  | nil => rfl
  | cons char text inductionHypothesis =>
    obtain ⟨piece, whole, encoded, converted⟩ := exists_piece char
    rw [List.flatMap_cons, List.flatMap_cons, ← encoded, ← converted, utf8ToCesu8_whole whole,
      inductionHypothesis]

/-! ### Units -/

/-- A unit of one, two or three bytes: a lead and the continuation bytes it announces. -/
inductive CodeUnit : Bytes → Prop where
  | one {a : UInt8} (lead : a < 0x80) : CodeUnit [a]
  | two {a b : UInt8} (lead : 0xc0 ≤ a ∧ a < 0xe0) (first : 0x80 ≤ b ∧ b < 0xc0) : CodeUnit [a, b]
  | three {a b c : UInt8} (lead : 0xe0 ≤ a ∧ a < 0xf0) (first : 0x80 ≤ b ∧ b < 0xc0)
      (second : 0x80 ≤ c ∧ c < 0xc0) : CodeUnit [a, b, c]

theorem CodeUnit.byte_lt {bytes : Bytes} (codeUnit : CodeUnit bytes) :
    ∀ byte ∈ bytes, byte < 0xf0 := by
  cases codeUnit with
  | one lead =>
    exact List.forall_mem_singleton.mpr (UInt8.lt_trans lead (by decide))
  | two lead first =>
    refine List.forall_mem_cons.mpr ⟨UInt8.lt_trans lead.2 (by decide), ?_⟩
    exact List.forall_mem_singleton.mpr (UInt8.lt_trans first.2 (by decide))
  | three lead first second =>
    refine List.forall_mem_cons.mpr ⟨lead.2, List.forall_mem_cons.mpr ⟨?_, ?_⟩⟩
    · exact UInt8.lt_trans first.2 (by decide)
    · exact List.forall_mem_singleton.mpr (UInt8.lt_trans second.2 (by decide))

/-- A piece that is a unit and is written as it was read. -/
structure Stable (piece : Piece UInt8) : Prop where
  whole : utf8Code.Whole piece
  written_eq : written piece = piece.letters
  codeUnit : CodeUnit piece.letters

theorem stable_single {c : UInt8} (ascii : utf8Code.single c = true) : Stable (.single c) :=
  ⟨ascii, rfl, .one (of_decide_eq_true ascii)⟩

theorem codeUnit_of_complete {sequence : Begun UInt8} (complete : utf8Code.Complete sequence)
    (short : sequence.letters.length ≤ 3) : CodeUnit sequence.letters := by
  obtain ⟨a, b, rfl, lead, first⟩ | ⟨a, b, c, rfl, lead, first, second⟩ |
    ⟨a, b, c, d, rfl, -⟩ := complete_cases complete
  · exact .two ⟨UInt8.le_iff_toNat_le.mpr lead.1, UInt8.lt_iff_toNat_lt.mpr lead.2⟩
      ⟨UInt8.le_iff_toNat_le.mpr first.1, UInt8.lt_iff_toNat_lt.mpr first.2⟩
  · exact .three ⟨UInt8.le_iff_toNat_le.mpr lead.1, UInt8.lt_iff_toNat_lt.mpr lead.2⟩
      ⟨UInt8.le_iff_toNat_le.mpr first.1, UInt8.lt_iff_toNat_lt.mpr first.2⟩
      ⟨UInt8.le_iff_toNat_le.mpr second.1, UInt8.lt_iff_toNat_lt.mpr second.2⟩
  · exact absurd short (by decide : ¬4 ≤ 3)

theorem stable_two {number : ℕ} (short : number ≤ 0x7ff) :
    Stable (.complete (twoSequence number)) := by
  obtain ⟨complete, same⟩ := twoSequence_spec (Nat.lt_succ_of_le short)
  refine ⟨complete, ?_, codeUnit_of_complete complete (by decide : 2 ≤ 3)⟩
  rw [written, same, writeUchar_two short]
  rfl

theorem stable_three {number : ℕ} (long : 0x7ff < number) (short : number ≤ 0xffff) :
    Stable (.complete (threeSequence number)) := by
  obtain ⟨complete, same⟩ := threeSequence_spec (Nat.lt_succ_of_le short)
  refine ⟨complete, ?_, codeUnit_of_complete complete (by decide : 3 ≤ 3)⟩
  rw [written, same, writeUchar_three long short]
  rfl

/-- Bytes that consist of such pieces. -/
def StableBytes (bytes : Bytes) : Prop :=
  ∃ parts : List (Piece UInt8), (∀ part ∈ parts, Stable part) ∧ bytes = parts.flatMap Piece.letters

theorem Stable.bytes {piece : Piece UInt8} (stable : Stable piece) : StableBytes piece.letters :=
  ⟨[piece], List.forall_mem_singleton.mpr stable, (List.append_nil _).symm⟩

theorem StableBytes.append {first second : Bytes} (stableFirst : StableBytes first)
    (stableSecond : StableBytes second) : StableBytes (first ++ second) := by
  obtain ⟨firstParts, firstStable, rfl⟩ := stableFirst
  obtain ⟨secondParts, secondStable, rfl⟩ := stableSecond
  exact ⟨firstParts ++ secondParts, List.forall_mem_append.mpr ⟨firstStable, secondStable⟩,
    List.flatMap_append.symm⟩

theorem writeUchar_stable (uchar : ℕ) : StableBytes (writeUchar uchar) := by
  by_cases two : uchar ≤ 0x7ff
  · rw [writeUchar_two two]
    exact (stable_two two).bytes
  by_cases three : uchar ≤ 0xffff
  · rw [writeUchar_three (Nat.not_le.mp two) three]
    exact (stable_three (Nat.not_le.mp two) three).bytes
  · have high : 0x7ff < highSurrogate (pairValue uchar) ∧
        highSurrogate (pairValue uchar) ≤ 0xffff := by
      rw [highSurrogate, pairValue]
      omega
    have low : 0x7ff < lowSurrogate (pairValue uchar) ∧
        lowSurrogate (pairValue uchar) ≤ 0xffff := by
      rw [lowSurrogate, pairValue]
      omega
    rw [writeUchar_pair (Nat.not_le.mp three), surrogatePair_eq]
    exact (stable_three high.1 high.2).bytes.append (stable_three low.1 low.2).bytes

theorem replacementChar_stable : StableBytes replacementChar := by
  have written : replacementChar = (Piece.complete (threeSequence 0xfffd)).letters := by decide
  rw [written]
  exact (stable_three (by decide) (by decide)).bytes

theorem written_stable {piece : Piece UInt8} (valid : utf8Code.Valid piece) :
    StableBytes (written piece) := by
  cases piece with
  | single c => exact (stable_single valid).bytes
  | complete sequence => exact writeUchar_stable (value sequence)
  | cut sequence => exact replacementChar_stable
  | stray c => exact replacementChar_stable

theorem flatMap_written_stable {pieces : List (Piece UInt8)}
    (valid : ∀ piece ∈ pieces, utf8Code.Valid piece) : StableBytes (pieces.flatMap written) := by
  induction pieces with
  | nil => exact ⟨[], fun _ absent => absurd absent List.not_mem_nil, rfl⟩
  | cons piece pieces inductionHypothesis =>
    rw [List.forall_mem_cons] at valid
    rw [List.flatMap_cons]
    exact (written_stable valid.1).append (inductionHypothesis valid.2)

theorem utf8ToCesu8_stable (utf8 : Bytes) : StableBytes (utf8ToCesu8 utf8) := by
  rw [utf8ToCesu8_eq]
  exact flatMap_written_stable fun _ member => SynchronizingCode.valid_of_mem_pieces member

theorem StableBytes.utf8ToCesu8_eq_self {bytes : Bytes} (stable : StableBytes bytes) :
    utf8ToCesu8 bytes = bytes := by
  obtain ⟨parts, stable, rfl⟩ := stable
  have pieces : utf8Code.pieces (parts.flatMap Piece.letters) = parts :=
    SynchronizingCode.pieces_flatMap fun part member => (stable part member).whole
  rw [utf8ToCesu8_eq, pieces]
  exact List.flatMap_congr fun part member => (stable part member).written_eq

/-- Whatever is converted, the output is made of units of one to three bytes, has no byte of a
longer sequence, and is not changed by a second conversion. -/
theorem utf8ToCesu8_safe (utf8 : Bytes) :
    (∃ units : List Bytes, (∀ bytes ∈ units, CodeUnit bytes) ∧
        utf8ToCesu8 utf8 = units.flatten) ∧
      (∀ byte ∈ utf8ToCesu8 utf8, byte < 0xf0) ∧
      utf8ToCesu8 (utf8ToCesu8 utf8) = utf8ToCesu8 utf8 := by
  have unchanged := (utf8ToCesu8_stable utf8).utf8ToCesu8_eq_self
  obtain ⟨parts, stable, output⟩ := utf8ToCesu8_stable utf8
  refine ⟨⟨parts.map Piece.letters, ?_, output⟩, ?_, unchanged⟩
  · exact List.forall_mem_map.mpr fun part member => (stable part member).codeUnit
  · rw [output]
    intro byte member
    obtain ⟨part, partMember, inPart⟩ := List.mem_flatMap.mp member
    exact (stable part partMember).codeUnit.byte_lt byte inPart

end NativeLibs.Cesu8
