/-
This file is about the sequences of bytes that the conversion to CESU-8 reads. It
gives the value of a complete sequence of two, three or four bytes, and it settles
two questions that are decided by the sequences of a text: whether `cesu8_len`
predicts the length of what is written, and what becomes of a sequence that is
cut off by the end of the text.
-/

import NativeLibs.Text.Cesu8

namespace NativeLibs.Cesu8

open Library

/-! ### The values of complete sequences -/

theorem shiftLeft_or_bits (sofar : ℕ) (c : UInt8) :
    sofar <<< 6 ||| (c &&& 0x3f).toNat = sofar * 64 + c.toNat % 64 := by
  have bits : (c &&& 0x3f).toNat = c.toNat % 64 := by
    rw [UInt8.toNat_and]
    exact Nat.and_two_pow_sub_one_eq_mod c.toNat 6
  have small : c.toNat % 64 < 2 ^ 6 := Nat.mod_lt _ (by decide)
  rw [bits, ← Nat.shiftLeft_add_eq_or_of_lt small, Nat.shiftLeft_eq]

theorem leadValue_eq (c : UInt8) :
    leadValue c =
      if c &&& 0xe0 = 0xc0 then c.toNat % 32 else if c &&& 0xf0 = 0xe0 then c.toNat % 16
      else c.toNat % 8 := by
  have five := Nat.and_two_pow_sub_one_eq_mod c.toNat 5
  have four := Nat.and_two_pow_sub_one_eq_mod c.toNat 4
  have three := Nat.and_two_pow_sub_one_eq_mod c.toNat 3
  rw [leadValue, UInt8.toNat_and, UInt8.toNat_and, UInt8.toNat_and]
  exact ite_congr rfl (fun _ => five) fun _ => ite_congr rfl (fun _ => four) fun _ => three

theorem value_two {a b : UInt8} (lead : 0xc0 ≤ a.toNat ∧ a.toNat < 0xe0)
    (first : 0x80 ≤ b.toNat ∧ b.toNat < 0xc0) :
    value ⟨a, [b]⟩ = (a.toNat - 0xc0) * 64 + (b.toNat - 0x80) := by
  obtain ⟨-, -, two, -, -⟩ := masks a
  simp only [value, List.foldl_cons, List.foldl_nil, shiftLeft_or_bits]
  rw [leadValue_eq, if_pos (two.mpr lead)]
  omega

theorem value_three {a b c : UInt8} (lead : 0xe0 ≤ a.toNat ∧ a.toNat < 0xf0)
    (first : 0x80 ≤ b.toNat ∧ b.toNat < 0xc0) (second : 0x80 ≤ c.toNat ∧ c.toNat < 0xc0) :
    value ⟨a, [b, c]⟩ =
      ((a.toNat - 0xe0) * 64 + (b.toNat - 0x80)) * 64 + (c.toNat - 0x80) := by
  obtain ⟨-, -, two, three, -⟩ := masks a
  have longer : ¬a &&& 0xe0 = 0xc0 := fun shorter => absurd (two.mp shorter).2 (by omega)
  simp only [value, List.foldl_cons, List.foldl_nil, shiftLeft_or_bits]
  rw [leadValue_eq, if_neg longer, if_pos (three.mpr lead)]
  omega

theorem value_four {a b c d : UInt8} (lead : 0xf0 ≤ a.toNat ∧ a.toNat < 0xf8)
    (first : 0x80 ≤ b.toNat ∧ b.toNat < 0xc0) (second : 0x80 ≤ c.toNat ∧ c.toNat < 0xc0)
    (third : 0x80 ≤ d.toNat ∧ d.toNat < 0xc0) :
    value ⟨a, [b, c, d]⟩ =
      (((a.toNat - 0xf0) * 64 + (b.toNat - 0x80)) * 64 + (c.toNat - 0x80)) * 64 +
        (d.toNat - 0x80) := by
  obtain ⟨-, -, two, three, -⟩ := masks a
  have longer : ¬a &&& 0xe0 = 0xc0 := fun shorter => absurd (two.mp shorter).2 (by omega)
  have longest : ¬a &&& 0xf0 = 0xe0 := fun shorter => absurd (three.mp shorter).2 (by omega)
  simp only [value, List.foldl_cons, List.foldl_nil, shiftLeft_or_bits]
  rw [leadValue_eq, if_neg longer, if_neg longest]
  omega

theorem continues_toNat (c : UInt8) :
    utf8Code.continues c = true ↔ 0x80 ≤ c.toNat ∧ c.toNat < 0xc0 :=
  (continues_iff c).trans (masks c).2.1

/-- The ranges of the leads. -/
theorem announced_toNat (c : UInt8) :
    (utf8Code.announced c = 1 ↔ 0xc0 ≤ c.toNat ∧ c.toNat < 0xe0) ∧
      (utf8Code.announced c = 2 ↔ 0xe0 ≤ c.toNat ∧ c.toNat < 0xf0) ∧
      (utf8Code.announced c = 3 ↔ 0xf0 ≤ c.toNat ∧ c.toNat < 0xf8) ∧
      utf8Code.announced c ≤ 3 := by
  rw [announced_eq]
  obtain ⟨-, -, two, three, four⟩ := masks c
  simp only [two, three, four]
  grind

/-- The complete sequences of two, three and four bytes. -/
theorem complete_cases {sequence : Begun UInt8} (complete : utf8Code.Complete sequence) :
    (∃ a b : UInt8, sequence = ⟨a, [b]⟩ ∧ (0xc0 ≤ a.toNat ∧ a.toNat < 0xe0) ∧
      0x80 ≤ b.toNat ∧ b.toNat < 0xc0) ∨
    (∃ a b c : UInt8, sequence = ⟨a, [b, c]⟩ ∧ (0xe0 ≤ a.toNat ∧ a.toNat < 0xf0) ∧
      (0x80 ≤ b.toNat ∧ b.toNat < 0xc0) ∧ 0x80 ≤ c.toNat ∧ c.toNat < 0xc0) ∨
    (∃ a b c d : UInt8, sequence = ⟨a, [b, c, d]⟩ ∧ (0xf0 ≤ a.toNat ∧ a.toNat < 0xf8) ∧
      (0x80 ≤ b.toNat ∧ b.toNat < 0xc0) ∧ (0x80 ≤ c.toNat ∧ c.toNat < 0xc0) ∧
      0x80 ≤ d.toNat ∧ d.toNat < 0xc0) := by
  obtain ⟨lead, rest⟩ := sequence
  obtain ⟨leads, continuing, length_eq⟩ := complete
  obtain ⟨two, three, four, atMost⟩ := announced_toNat lead
  have range := fun c member => (continues_toNat c).mp (continuing c member)
  simp only at leads length_eq
  obtain one | more | most : utf8Code.announced lead = 1 ∨ utf8Code.announced lead = 2 ∨
      utf8Code.announced lead = 3 := by omega
  · obtain ⟨b, rfl⟩ := List.length_eq_one_iff.mp (length_eq.trans one)
    exact Or.inl ⟨lead, b, rfl, two.mp one, range b (by simp)⟩
  · obtain ⟨b, c, rfl⟩ := List.length_eq_two.mp (length_eq.trans more)
    exact Or.inr (Or.inl ⟨lead, b, c, rfl, three.mp more, range b (by simp), range c (by simp)⟩)
  · obtain ⟨b, c, d, rfl⟩ := List.length_eq_three.mp (length_eq.trans most)
    exact Or.inr (Or.inr ⟨lead, b, c, d, rfl, four.mp most, range b (by simp), range c (by simp),
      range d (by simp)⟩)

theorem complete_two {a b : UInt8} (lead : 0xc0 ≤ a.toNat ∧ a.toNat < 0xe0)
    (first : 0x80 ≤ b.toNat ∧ b.toNat < 0xc0) : utf8Code.Complete ⟨a, [b]⟩ := by
  have announced := (announced_toNat a).1.mpr lead
  refine ⟨?_, ?_, announced.symm⟩
  · rw [announced]
    exact Nat.one_pos
  · exact List.forall_mem_singleton.mpr ((continues_toNat b).mpr first)

theorem complete_three {a b c : UInt8} (lead : 0xe0 ≤ a.toNat ∧ a.toNat < 0xf0)
    (first : 0x80 ≤ b.toNat ∧ b.toNat < 0xc0) (second : 0x80 ≤ c.toNat ∧ c.toNat < 0xc0) :
    utf8Code.Complete ⟨a, [b, c]⟩ := by
  have announced := (announced_toNat a).2.1.mpr lead
  refine ⟨?_, ?_, announced.symm⟩
  · rw [announced]
    exact Nat.two_pos
  · exact List.forall_mem_cons.mpr ⟨(continues_toNat b).mpr first,
      List.forall_mem_singleton.mpr ((continues_toNat c).mpr second)⟩

theorem complete_four {a b c d : UInt8} (lead : 0xf0 ≤ a.toNat ∧ a.toNat < 0xf8)
    (first : 0x80 ≤ b.toNat ∧ b.toNat < 0xc0) (second : 0x80 ≤ c.toNat ∧ c.toNat < 0xc0)
    (third : 0x80 ≤ d.toNat ∧ d.toNat < 0xc0) : utf8Code.Complete ⟨a, [b, c, d]⟩ := by
  have announced := (announced_toNat a).2.2.1.mpr lead
  refine ⟨?_, ?_, announced.symm⟩
  · rw [announced]
    exact Nat.succ_pos 2
  · exact List.forall_mem_cons.mpr ⟨(continues_toNat b).mpr first,
      List.forall_mem_cons.mpr ⟨(continues_toNat c).mpr second,
        List.forall_mem_singleton.mpr ((continues_toNat d).mpr third)⟩⟩

/-! ### When the length is predicted -/

/-- A sequence of three or four bytes whose value needs fewer bytes. -/
def Overlong (sequence : Begun UInt8) : Prop :=
  ∃ second later, sequence.rest = second :: later ∧
    (sequence.lead = 0xe0 ∧ second < 0xa0 ∨ sequence.lead = 0xf0 ∧ second < 0x90)

theorem length_writeUchar (currentUchar : ℕ) :
    (writeUchar currentUchar).length =
      if currentUchar ≤ 0x7ff then 2 else if currentUchar ≤ 0xffff then 3 else 6 := by
  rw [writeUchar]
  by_cases two : currentUchar ≤ 0x7ff
  · rw [if_pos two, if_pos two]
    rfl
  · rw [if_neg two, if_neg two]
    by_cases three : currentUchar ≤ 0xffff
    · rw [if_pos three, if_pos three]
      rfl
    · rw [if_neg three, if_neg three]
      rfl

theorem exists_second_iff {P : UInt8 → Prop} (b : UInt8) (later : Bytes) :
    (∃ second rest, b :: later = second :: rest ∧ P second) ↔ P b := by
  constructor
  · rintro ⟨second, rest, same, holds⟩
    obtain ⟨rfl, rfl⟩ := List.cons.inj same
    exact holds
  · intro holds
    exact ⟨b, later, rfl, holds⟩

theorem overlong_iff (a b : UInt8) (later : Bytes) :
    Overlong ⟨a, b :: later⟩ ↔
      a.toNat = 0xe0 ∧ b.toNat < 0xa0 ∨ a.toNat = 0xf0 ∧ b.toNat < 0x90 := by
  refine (exists_second_iff b later).trans ?_
  simp only [← UInt8.toNat_inj, UInt8.lt_iff_toNat_lt]
  rfl

/-- No complete sequence is counted with fewer bytes than are written, and an overlong one with
more. -/
theorem size_complete {sequence : Begun UInt8} (complete : utf8Code.Complete sequence) :
    (written (.complete sequence)).length ≤ size (.complete sequence) ∧
      (size (.complete sequence) = (written (.complete sequence)).length ↔
        ¬Overlong sequence) := by
  simp only [written, length_writeUchar]
  obtain ⟨a, b, rfl, lead, first⟩ | ⟨a, b, c, rfl, lead, first, second⟩ |
    ⟨a, b, c, d, rfl, lead, first, second, third⟩ := complete_cases complete
  · have counted : size (.complete ⟨a, [b]⟩) = 2 := rfl
    have assembled := value_two lead first
    have short : value ⟨a, [b]⟩ ≤ 0x7ff := by omega
    rw [overlong_iff, counted, if_pos short]
    omega
  · have counted : size (.complete ⟨a, [b, c]⟩) = 3 := rfl
    have assembled := value_three lead first second
    have short : value ⟨a, [b, c]⟩ ≤ 0xffff := by omega
    rw [overlong_iff, counted, if_pos short]
    by_cases fewer : value ⟨a, [b, c]⟩ ≤ 0x7ff
    · rw [if_pos fewer]
      omega
    · rw [if_neg fewer]
      omega
  · have counted : size (.complete ⟨a, [b, c, d]⟩) = 6 := rfl
    have assembled := value_four lead first second third
    rw [overlong_iff, counted]
    by_cases fewer : value ⟨a, [b, c, d]⟩ ≤ 0xffff
    · have atMost : (if value ⟨a, [b, c, d]⟩ ≤ 0x7ff then 2 else 3) ≤ 3 := by
        split
        · decide
        · decide
      rw [if_pos fewer]
      omega
    · have more : ¬value ⟨a, [b, c, d]⟩ ≤ 0x7ff := by omega
      rw [if_neg more, if_neg fewer]
      omega

theorem length_written_le {piece : Piece UInt8} (valid : utf8Code.Valid piece) :
    (written piece).length ≤ size piece := by
  cases piece with
  | single c => exact le_rfl
  | complete sequence => exact (size_complete valid).1
  | cut sequence => exact le_rfl
  | stray c => exact le_rfl

/-- Sizes that are nowhere too small add up to the length only if all of them are exact. -/
theorem sum_size_eq_iff {parts : List (Piece UInt8)}
    (atMost : ∀ piece ∈ parts, (written piece).length ≤ size piece) :
    (parts.flatMap written).length ≤ (parts.map size).sum ∧
      ((parts.map size).sum = (parts.flatMap written).length ↔
        ∀ piece ∈ parts, size piece = (written piece).length) := by
  induction parts with
  | nil => exact ⟨le_rfl, fun _ _ absent => absurd absent List.not_mem_nil, fun _ => rfl⟩
  | cons piece parts inductionHypothesis =>
    rw [List.forall_mem_cons] at atMost
    obtain ⟨below, exactly⟩ := inductionHypothesis atMost.2
    have here := atMost.1
    rw [List.flatMap_cons, List.length_append, List.map_cons, List.sum_cons,
      List.forall_mem_cons, ← exactly]
    omega

/-- The length is predicted exactly if no complete sequence of the text is overlong. -/
theorem cesu8Len_eq_length_iff (utf8 : Bytes) :
    cesu8Len utf8 = (utf8ToCesu8 utf8).length ↔
      ¬∃ sequence : Begun UInt8, utf8Code.Complete sequence ∧ Overlong sequence ∧
        sequence.letters <:+: utf8 := by
  have valid : ∀ piece ∈ utf8Code.pieces utf8, utf8Code.Valid piece :=
    fun _ member => SynchronizingCode.valid_of_mem_pieces member
  rw [cesu8Len_eq, utf8ToCesu8_eq,
    (sum_size_eq_iff fun piece member => length_written_le (valid piece member)).2, not_exists]
  constructor
  · rintro exactly sequence ⟨complete, overlong, occurs⟩
    have member := (SynchronizingCode.complete_mem_pieces_iff complete utf8).mpr occurs
    exact (size_complete complete).2.mp (exactly _ member) overlong
  · intro free piece member
    cases piece with
    | single c => rfl
    | complete sequence =>
      have complete : utf8Code.Complete sequence := valid _ member
      have occurs := (SynchronizingCode.complete_mem_pieces_iff complete utf8).mp member
      exact (size_complete complete).2.mpr fun overlong =>
        free sequence ⟨complete, overlong, occurs⟩
    | cut sequence => rfl
    | stray c => rfl

/-- Three bytes are predicted for an overlong zero, and two are written. -/
theorem overlongZero_predicted :
    cesu8Len [0xe0, 0x80, 0x80] = 3 ∧ utf8ToCesu8 [0xe0, 0x80, 0x80] = [0xc0, 0x80] ∧
      cesu8Len [0xe0, 0x80, 0x80] ≠ (utf8ToCesu8 [0xe0, 0x80, 0x80]).length := by
  decide

/-! ### The end of a text -/

/-- A text that ends with a lead and fewer continuation bytes than it announces. -/
def EndsUnfinished (utf8 : Bytes) : Prop :=
  ∃ begun : Begun UInt8, utf8Code.Unfinished begun ∧ begun.letters <:+ utf8

theorem utf8ToCesu8_snoc (utf8 : Bytes) {a : UInt8} (ascii : a < 0x80) :
    utf8ToCesu8 (utf8 ++ [a]) =
      utf8ToCesu8 utf8 ++ (((utf8Code.scan none utf8).2.map Piece.cut).toList.flatMap written ++
        [a]) := by
  have alone : utf8Code.single a = true := decide_eq_true ascii
  rw [utf8ToCesu8_eq, utf8ToCesu8_eq, SynchronizingCode.pieces, SynchronizingCode.scan_append,
    SynchronizingCode.scan_restart _ (utf8Code.single_continues a alone),
    SynchronizingCode.pieces, SynchronizingCode.scan_single alone, List.flatMap_append,
    List.flatMap_append]
  rfl

/-- An ASCII byte behind a text is converted to itself and changes nothing before it exactly if the
text does not end with an unfinished sequence. -/
theorem utf8ToCesu8_snoc_iff (utf8 : Bytes) (a : UInt8) (ascii : a < 0x80) :
    utf8ToCesu8 (utf8 ++ [a]) = utf8ToCesu8 utf8 ++ [a] ↔ ¬EndsUnfinished utf8 := by
  rw [utf8ToCesu8_snoc utf8 ascii, EndsUnfinished, ← SynchronizingCode.scan_eq_none_iff,
    List.append_right_inj]
  cases (utf8Code.scan none utf8).2 with
  | none => exact ⟨fun _ => rfl, fun _ => rfl⟩
  | some begun =>
    have longer : ((some begun).map Piece.cut).toList.flatMap written ++ [a] ≠ [a] := fun same =>
      absurd (congrArg List.length same) (by decide : ¬4 = 1)
    exact iff_of_false longer (Option.some_ne_none begun)

/-- The two first bytes of the euro sign are dropped at the end of a text and replaced before a
letter. -/
theorem cutEuro_dropped :
    utf8ToCesu8 [0xe2, 0x82] = [] ∧
      utf8ToCesu8 ([0xe2, 0x82] ++ [0x41]) = [0xef, 0xbf, 0xbd, 0x41] ∧
      utf8ToCesu8 ([0xe2, 0x82] ++ [0x41]) ≠ utf8ToCesu8 [0xe2, 0x82] ++ [0x41] := by
  decide

/-- The whole euro sign before a letter. -/
theorem utf8ToCesu8_snoc_iff_euro :
    utf8ToCesu8 ([0xe2, 0x82, 0xac] ++ [0x41]) = utf8ToCesu8 [0xe2, 0x82, 0xac] ++ [0x41] ∧
      ¬EndsUnfinished [0xe2, 0x82, 0xac] := by
  have same : utf8ToCesu8 ([0xe2, 0x82, 0xac] ++ [0x41]) =
      utf8ToCesu8 [0xe2, 0x82, 0xac] ++ [0x41] := by decide
  exact ⟨same, (utf8ToCesu8_snoc_iff [0xe2, 0x82, 0xac] 0x41 (by decide)).mp same⟩

end NativeLibs.Cesu8
