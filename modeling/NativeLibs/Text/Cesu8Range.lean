/-
This file is about the branch of `utf8_to_cesu8` that writes a surrogate pair. It
is reached with the value of every complete sequence beyond U+FFFF, and what it
writes stands for that value only up to U+10FFFF, which nothing checks. A
sequence with a larger value is converted to the same bytes as another one.
-/

import NativeLibs.Text.Cesu8Output

namespace NativeLibs.Cesu8

open Library

/-! ### Reaching the branch -/

/-- Some byte of the text makes the conversion write a surrogate pair for a value. -/
def WritesPair (utf8 : Bytes) (uchar : ℕ) : Prop :=
  ∃ before c after, utf8 = before ++ c :: after ∧ (convert before).utfCharsRemaining = 1 ∧
    c &&& 0xc0 = 0x80 ∧ uchar = (convert before).currentUchar <<< 6 ||| (c &&& 0x3f).toNat ∧
    0xffff < uchar

theorem convert_unfinished {utf8 : Bytes} {begun : Begun UInt8}
    (ends : (utf8Code.scan none utf8).2 = some begun) :
    begun.rest.length + (convert utf8).utfCharsRemaining = utf8Code.announced begun.lead ∧
      (convert utf8).currentUchar = value begun := by
  have follows := convert_follows utf8
  have awaits := follows.awaits
  rw [ends] at awaits
  exact ⟨awaits.2, follows.currentUchar_eq begun ends⟩

theorem exists_begun {utf8 : Bytes} (waiting : (convert utf8).utfCharsRemaining ≠ 0) :
    ∃ begun, (utf8Code.scan none utf8).2 = some begun := by
  have awaits := (convert_follows utf8).awaits
  cases ends : (utf8Code.scan none utf8).2 with
  | none =>
    rw [ends] at awaits
    exact absurd awaits waiting
  | some begun => exact ⟨begun, rfl⟩

theorem append_snoc_letters (start : Bytes) (lead : UInt8) (sofar : Bytes) (c : UInt8)
    (after : Bytes) :
    start ++ (Begun.mk lead (sofar ++ [c])).letters ++ after =
      start ++ (Begun.mk lead sofar).letters ++ c :: after := by
  simp only [Begun.letters, List.append_assoc, List.cons_append, List.nil_append]

theorem writesPair_iff (utf8 : Bytes) (uchar : ℕ) :
    WritesPair utf8 uchar ↔
      0xffff < uchar ∧ ∃ sequence : Begun UInt8, utf8Code.Complete sequence ∧
        sequence.letters <:+: utf8 ∧ value sequence = uchar := by
  constructor
  · rintro ⟨before, c, after, rfl, remaining, further, assembled, beyond⟩
    obtain ⟨begun, ends⟩ := exists_begun (remaining.trans_ne Nat.one_ne_zero)
    obtain ⟨lacks, sofar⟩ := convert_unfinished ends
    obtain ⟨unfinished, start, rfl⟩ := (SynchronizingCode.scan_eq_some_iff before begun).mp ends
    rw [remaining] at lacks
    refine ⟨beyond, ⟨begun.lead, begun.rest ++ [c]⟩, ?_, ⟨start, after, ?_⟩, ?_⟩
    · exact (SynchronizingCode.complete_snoc_iff _ _ _).mpr
        ⟨unfinished, (continues_iff c).mpr further, lacks⟩
    · exact append_snoc_letters start begun.lead begun.rest c after
    · rw [value_snoc, ← sofar, assembled]
  · rintro ⟨beyond, ⟨lead, rest⟩, complete, ⟨start, after, rfl⟩, rfl⟩
    obtain rfl | ⟨sofar, c, rfl⟩ := rest.eq_nil_or_concat'
    · exact absurd complete.length_eq (Nat.ne_of_lt complete.leads)
    obtain ⟨unfinished, further, lacks⟩ :=
      (SynchronizingCode.complete_snoc_iff lead sofar c).mp complete
    have ends := (SynchronizingCode.scan_eq_some_iff (start ++ (Begun.mk lead sofar).letters)
      ⟨lead, sofar⟩).mpr ⟨unfinished, start, rfl⟩
    obtain ⟨remaining, assembled⟩ := convert_unfinished ends
    refine ⟨_, c, after, append_snoc_letters start lead sofar c after, ?_,
      (continues_iff c).mp further, ?_, beyond⟩
    · exact Nat.add_left_cancel (remaining.trans lacks.symm)
    · rw [value_snoc, assembled]

/-! ### Values beyond Unicode -/

/-- A sequence of four bytes with a value beyond U+10FFFF. -/
def Beyond (sequence : Begun UInt8) : Prop :=
  ∃ second later, sequence.rest = second :: later ∧
    (0xf4 < sequence.lead ∨ sequence.lead = 0xf4 ∧ 0x90 ≤ second)

theorem beyond_iff (a b : UInt8) (later : Bytes) :
    Beyond ⟨a, b :: later⟩ ↔ 0xf4 < a.toNat ∨ a.toNat = 0xf4 ∧ 0x90 ≤ b.toNat := by
  refine (exists_second_iff b later).trans ?_
  simp only [← UInt8.toNat_inj, UInt8.lt_iff_toNat_lt, UInt8.le_iff_toNat_le]
  rfl

theorem lt_value_iff_beyond {sequence : Begun UInt8} (complete : utf8Code.Complete sequence) :
    0x10ffff < value sequence ↔ Beyond sequence := by
  obtain ⟨a, b, rfl, lead, first⟩ | ⟨a, b, c, rfl, lead, first, second⟩ |
    ⟨a, b, c, d, rfl, lead, first, second, third⟩ := complete_cases complete
  · rw [value_two lead first, beyond_iff]
    omega
  · rw [value_three lead first second, beyond_iff]
    omega
  · rw [value_four lead first second third, beyond_iff]
    omega

/-! ### Different values, different bytes -/

theorem twoBytes_inj {first second : ℕ} (firstRange : first ≤ 0x7ff) (secondRange : second ≤ 0x7ff)
    (same : twoBytes first = twoBytes second) : first = second := by
  have sequences : twoSequence first = twoSequence second := Begun.letters_injective same
  rw [← (twoSequence_spec (Nat.lt_succ_of_le firstRange)).2, sequences,
    (twoSequence_spec (Nat.lt_succ_of_le secondRange)).2]

theorem threeBytes_inj {first second : ℕ} (firstRange : first ≤ 0xffff)
    (secondRange : second ≤ 0xffff) (same : threeBytes first = threeBytes second) :
    first = second := by
  have sequences : threeSequence first = threeSequence second := Begun.letters_injective same
  rw [← (threeSequence_spec (Nat.lt_succ_of_le firstRange)).2, sequences,
    (threeSequence_spec (Nat.lt_succ_of_le secondRange)).2]

theorem writeUchar_inj {first second : ℕ} (firstRange : first ≤ 0x10ffff)
    (secondRange : second ≤ 0x10ffff) (same : writeUchar first = writeUchar second) :
    first = second := by
  -- the number of bytes tells which branch was taken
  have lengths := congrArg List.length same
  rw [length_writeUchar, length_writeUchar] at lengths
  have branches : (first ≤ 0x7ff ↔ second ≤ 0x7ff) ∧ (first ≤ 0xffff ↔ second ≤ 0xffff) := by
    grind
  by_cases two : first ≤ 0x7ff
  · have twoSecond := branches.1.mp two
    rw [writeUchar_two two, writeUchar_two twoSecond] at same
    exact twoBytes_inj two twoSecond same
  have twoSecond := mt branches.1.mpr two
  by_cases three : first ≤ 0xffff
  · have threeSecond := branches.2.mp three
    rw [writeUchar_three (Nat.not_le.mp two) three,
      writeUchar_three (Nat.not_le.mp twoSecond) threeSecond] at same
    exact threeBytes_inj three threeSecond same
  · have beyond := Nat.not_le.mp three
    have beyondSecond := Nat.not_le.mp (mt branches.2.mpr three)
    rw [writeUchar_pair beyond, writeUchar_pair beyondSecond] at same
    have decoded := congrArg decodePair same
    rw [decodePair_surrogatePair, decodePair_surrogatePair, pairValue_of_le beyond firstRange,
      pairValue_of_le beyondSecond secondRange] at decoded
    exact Option.some.inj decoded

theorem eq_of_value_eq {first second : Begun UInt8} (completeFirst : utf8Code.Complete first)
    (completeSecond : utf8Code.Complete second) (fourFirst : first.letters.length = 4)
    (fourSecond : second.letters.length = 4) (same : value first = value second) :
    first = second := by
  obtain ⟨_, _, rfl, _⟩ | ⟨_, _, _, rfl, _⟩ | ⟨a, b, c, d, rfl, lead, one, two, three⟩ :=
    complete_cases completeFirst
  · exact absurd fourFirst (by decide : ¬2 = 4)
  · exact absurd fourFirst (by decide : ¬3 = 4)
  obtain ⟨_, _, rfl, _⟩ | ⟨_, _, _, rfl, _⟩ | ⟨a', b', c', d', rfl, lead', one', two', three'⟩ :=
    complete_cases completeSecond
  · exact absurd fourSecond (by decide : ¬2 = 4)
  · exact absurd fourSecond (by decide : ¬3 = 4)
  rw [value_four lead one two three, value_four lead' one' two' three'] at same
  have sameBytes : a = a' ∧ b = b' ∧ c = c' ∧ d = d' := by
    simp only [← UInt8.toNat_inj]
    omega
  obtain ⟨rfl, rfl, rfl, rfl⟩ := sameBytes
  rfl

/-! ### The range of the branch -/

/-- What the source takes for granted where it writes a surrogate pair, and what follows from it. -/
structure SurrogateRange (utf8 : Bytes) : Prop where
  inRange : ∀ uchar, WritesPair utf8 uchar → uchar ≤ 0x10ffff
  decodes : ∀ uchar, WritesPair utf8 uchar → decodePair (surrogatePair uchar) = some uchar
  distinct : ∀ first second : Begun UInt8, utf8Code.Complete first → utf8Code.Complete second →
    first.letters.length = 4 → second.letters.length = 4 → first.letters <:+: utf8 →
    second.letters <:+: utf8 → utf8ToCesu8 first.letters = utf8ToCesu8 second.letters →
    first = second

theorem utf8ToCesu8_complete {sequence : Begun UInt8} (complete : utf8Code.Complete sequence) :
    utf8ToCesu8 sequence.letters = writeUchar (value sequence) := by
  have converted := utf8ToCesu8_whole (show utf8Code.Whole (.complete sequence) from complete) []
  rw [List.append_nil] at converted
  exact converted.trans (List.append_nil _)

/-- The branch is reached only with values up to U+10FFFF, what it writes gives the value back and
different sequences of four bytes are converted to different bytes, exactly if no sequence of the
text has a value beyond U+10FFFF. -/
theorem surrogateRange_iff (utf8 : Bytes) :
    SurrogateRange utf8 ↔
      ¬∃ sequence : Begun UInt8, utf8Code.Complete sequence ∧ Beyond sequence ∧
        sequence.letters <:+: utf8 := by
  constructor
  · rintro range ⟨sequence, complete, beyond, occurs⟩
    have large := (lt_value_iff_beyond complete).mpr beyond
    have reached : WritesPair utf8 (value sequence) := (writesPair_iff utf8 _).mpr
      ⟨lt_trans (by decide) large, sequence, complete, occurs, rfl⟩
    exact absurd (range.inRange _ reached) (Nat.not_le.mpr large)
  · intro free
    have small {sequence : Begun UInt8} (complete : utf8Code.Complete sequence)
        (occurs : sequence.letters <:+: utf8) : value sequence ≤ 0x10ffff :=
      Nat.le_of_not_lt fun large =>
        free ⟨sequence, complete, (lt_value_iff_beyond complete).mp large, occurs⟩
    refine ⟨fun uchar reached => ?_, fun uchar reached => ?_, ?_⟩
    · obtain ⟨-, sequence, complete, occurs, rfl⟩ := (writesPair_iff utf8 uchar).mp reached
      exact small complete occurs
    · obtain ⟨beyond, sequence, complete, occurs, rfl⟩ := (writesPair_iff utf8 uchar).mp reached
      rw [decodePair_surrogatePair, pairValue_of_le beyond (small complete occurs)]
    · intro first second completeFirst completeSecond fourFirst fourSecond occursFirst occursSecond
        same
      rw [utf8ToCesu8_complete completeFirst, utf8ToCesu8_complete completeSecond] at same
      exact eq_of_value_eq completeFirst completeSecond fourFirst fourSecond
        (writeUchar_inj (small completeFirst occursFirst) (small completeSecond occursSecond) same)

/-- A sequence with the value `0x110000` reaches the branch and is converted to the bytes of
U+10000. -/
theorem beyondUnicode_converted :
    WritesPair [0xf4, 0x90, 0x80, 0x80] 0x110000 ∧ ¬0x110000 ≤ 0x10ffff ∧
      decodePair (surrogatePair 0x110000) = some 0x10000 ∧
      utf8ToCesu8 [0xf4, 0x90, 0x80, 0x80] = utf8ToCesu8 [0xf0, 0x90, 0x80, 0x80] := by
  refine ⟨⟨[0xf4, 0x90, 0x80], 0x80, [], ?_⟩, ?_⟩
  · decide
  · decide

end NativeLibs.Cesu8
