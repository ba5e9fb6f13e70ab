/-
This file is about what `decode_base64` takes. Its first loop stops at the first
padding, so nothing behind it is looked at, and it looks every character before
it up in a table by a `char`, which is signed. The conversion of a negative
`char` to the index type of `std::array` gives an index far behind the table.
-/

import NativeLibs.Text.Base64

namespace NativeLibs.Base64

open Library

/-! ### The indices -/

/-- The index into the table that a `char` is converted to: its value as a signed number, modulo
the range of a 64-bit `size_t`. -/
def tableIndex (char : UInt8) : ℕ := (char.toInt8.toInt % 2 ^ 64).toNat

theorem tableIndex_eq (char : UInt8) :
    tableIndex char = if char.toNat < 128 then char.toNat else 2 ^ 64 - 256 + char.toNat := by
  revert char
  exact forall_byte (by decide +kernel)

theorem tableIndex_lt_iff (char : UInt8) : tableIndex char < 256 ↔ char < 128 := by
  rw [tableIndex_eq, UInt8.lt_iff_toNat_lt]
  show _ ↔ char.toNat < 128
  by_cases inRange : char.toNat < 128
  · rw [if_pos inRange]
    omega
  · rw [if_neg inRange]
    omega

theorem readBasis_eq (urlSafe : Bool) (char : UInt8) :
    readBasis urlSafe char = (basis urlSafe)[tableIndex char]? := by
  rw [readBasis]
  by_cases inRange : char < 128
  · have small : char.toNat < 128 := UInt8.lt_iff_toNat_lt.mp inRange
    have same : tableIndex char = char.toNat := by
      rw [tableIndex_eq, if_pos small]
    have inside : char.toNat < (basis urlSafe).length := by
      rw [length_basis]
      exact char.toNat_lt
    rw [if_pos inRange, same, valueOf, List.getD_eq_getElem _ _ inside,
      List.getElem?_eq_getElem inside]
  · have outside : (basis urlSafe).length ≤ tableIndex char := by
      rw [length_basis]
      exact Nat.le_of_not_lt (mt (tableIndex_lt_iff char).mp inRange)
    rw [if_neg inRange, List.getElem?_eq_none outside]

/-- The indices that the first loop of `decode_base64` uses. Nothing is known of it behind an index
outside the table. -/
def scanIndices (urlSafe : Bool) : Bytes → List ℕ
  | [] => []
  | char :: rest =>
    if char = padding then []
    else
      tableIndex char ::
        match readBasis urlSafe char with
        | none => []
        | some value => if value = 77 then [] else scanIndices urlSafe rest

/-- The indices that the second loop and the lines after it use. -/
def loopIndices : Bytes → List ℕ
  | char0 :: char1 :: char2 :: char3 :: rest =>
    [char0, char1, char1, char2, char2, char3].map tableIndex ++ loopIndices rest
  | [char0, char1, char2] => [char0, char1, char1, char2].map tableIndex
  | [char0, char1] => [char0, char1].map tableIndex
  | _ => []

/-- All indices that `decode_base64` uses. -/
def decodeIndices (data : Bytes) (urlSafe : Bool) : List ℕ :=
  scanIndices urlSafe data ++
    match decodeLength urlSafe data with
    | some (some length) => if length % 4 = 1 then [] else loopIndices (data.take length)
    | _ => []

theorem mem_of_mem_loopIndices {chars : Bytes} {index : ℕ} (member : index ∈ loopIndices chars) :
    index ∈ chars.map tableIndex := by
  induction chars using loopIndices.induct with
  | case1 char0 char1 char2 char3 rest inductionHypothesis =>
    rw [loopIndices, List.mem_append] at member
    rcases member with here | later
    · simp only [List.map_cons, List.map_nil, List.mem_cons, List.not_mem_nil] at here ⊢
      tauto
    · have inRest := inductionHypothesis later
      simp only [List.map_cons, List.mem_cons]
      tauto
  | case2 char0 char1 char2 =>
    simp only [loopIndices, List.map_cons, List.map_nil, List.mem_cons, List.not_mem_nil]
      at member ⊢
    tauto
  | case3 char0 char1 => exact member
  | case4 chars notGroup notThree notTwo =>
    rw [loopIndices] at member
    · exact absurd member List.not_mem_nil
    · exact notGroup
    · exact notThree
    · exact notTwo

/-! ### The run of the alphabet -/

theorem mem_alphabet_iff (urlSafe : Bool) (char : UInt8) :
    char ∈ alphabet urlSafe ↔ char < 128 ∧ valueOf urlSafe char ≠ 77 := by
  constructor
  · intro member
    obtain ⟨index, inside, rfl⟩ := List.mem_take_iff_getElem.mp member
    have small : index < 64 := (lt_min_iff.mp inside).1
    have within : index < (base64Table urlSafe).length := (lt_min_iff.mp inside).2
    have number : (UInt8.ofNat index).toNat = index :=
      UInt8.toNat_ofNat_of_lt' (show index < 256 by omega)
    have below : UInt8.ofNat index < 64 := UInt8.lt_iff_toNat_lt.mpr (by rw [number]; exact small)
    have same : charOf urlSafe (UInt8.ofNat index) = (base64Table urlSafe)[index] := by
      rw [charOf, number, List.getD_eq_getElem _ _ within]
    obtain ⟨inRange, -, back⟩ := valueOf_charOf urlSafe below
    rw [← same, back]
    refine ⟨inRange, fun invalid => ?_⟩
    rw [invalid] at below
    exact absurd below (by decide)
  · rintro ⟨-, valid⟩
    obtain ⟨small, same⟩ := charOf_valueOf urlSafe valid
    rw [← same]
    exact charOf_mem urlSafe small

theorem padding_notMem_alphabet (urlSafe : Bool) : padding ∉ alphabet urlSafe := by
  rw [mem_alphabet_iff]
  cases urlSafe <;> decide

/-- The first loop goes through characters of the alphabet. -/
theorem decodeLength_append {urlSafe : Bool} {run : Bytes}
    (valid : ∀ char ∈ run, char ∈ alphabet urlSafe) (rest : Bytes) :
    decodeLength urlSafe (run ++ rest) =
      (decodeLength urlSafe rest).map (Option.map (· + run.length)) ∧
    scanIndices urlSafe (run ++ rest) = run.map tableIndex ++ scanIndices urlSafe rest := by
  induction run with
  | nil =>
    refine ⟨?_, rfl⟩
    rw [List.nil_append]
    simp
  | cons char run inductionHypothesis =>
    rw [List.forall_mem_cons] at valid
    obtain ⟨inRange, notInvalid⟩ := (mem_alphabet_iff urlSafe char).mp valid.1
    have notPadding : char ≠ padding := fun same =>
      padding_notMem_alphabet urlSafe (same ▸ valid.1)
    obtain ⟨counted, indices⟩ := inductionHypothesis valid.2
    have read : readBasis urlSafe char = some (valueOf urlSafe char) := if_pos inRange
    constructor
    · rw [List.cons_append, decodeLength, if_neg notPadding, read]
      simp only [if_neg notInvalid, counted, Option.map_map]
      congr 1
      funext length
      rw [Function.comp_apply, Option.map_map]
      rfl
    · rw [List.cons_append, scanIndices, if_neg notPadding, read]
      simp only [if_neg notInvalid, indices]
      rfl

theorem scan_stop (urlSafe : Bool) {char : UInt8} (outside : char ∉ alphabet urlSafe)
    (notPadding : char ≠ padding) (rest : Bytes) :
    decodeLength urlSafe (char :: rest) = (if char < 128 then some none else none) ∧
      scanIndices urlSafe (char :: rest) = [tableIndex char] := by
  rw [decodeLength, scanIndices, if_neg notPadding, if_neg notPadding, readBasis]
  by_cases inRange : char < 128
  · have invalid : valueOf urlSafe char = 77 := by
      by_contra valid
      exact outside ((mem_alphabet_iff urlSafe char).mpr ⟨inRange, valid⟩)
    rw [if_pos inRange, if_pos inRange]
    simp only [if_pos invalid, and_self]
  · rw [if_neg inRange, if_neg inRange]
    exact ⟨rfl, rfl⟩

/-! ### Reading inside the table -/

/-- The characters from the first one on that is not of the alphabet. -/
def afterAlphabet (urlSafe : Bool) (data : Bytes) : Bytes :=
  data.dropWhile (alphabet urlSafe).contains

theorem exists_run (urlSafe : Bool) (data : Bytes) :
    ∃ run, (∀ char ∈ run, char ∈ alphabet urlSafe) ∧ data = run ++ afterAlphabet urlSafe data ∧
      ∀ char ∈ (afterAlphabet urlSafe data).head?, char ∉ alphabet urlSafe := by
  refine ⟨data.takeWhile (alphabet urlSafe).contains, fun char member => ?_, ?_,
    fun char first => ?_⟩
  · exact List.contains_iff_mem.mp (List.mem_takeWhile_imp member)
  · exact List.takeWhile_append_dropWhile.symm
  · have stopped := List.head?_dropWhile_not (alphabet urlSafe).contains data
    rw [show (data.dropWhile (alphabet urlSafe).contains).head? = some char from first] at stopped
    exact fun member => Bool.false_ne_true (stopped.symm.trans (List.contains_iff_mem.mpr member))

theorem scan_inRange {urlSafe : Bool} {data : Bytes}
    (ascii : ∀ char ∈ (afterAlphabet urlSafe data).head?, char < 128) :
    decodeLength urlSafe data ≠ none ∧ ∀ index ∈ scanIndices urlSafe data, index < 256 := by
  obtain ⟨run, inAlphabet, parts, stops⟩ := exists_run urlSafe data
  obtain ⟨counted, indices⟩ := decodeLength_append inAlphabet (afterAlphabet urlSafe data)
  have runIndices : ∀ index ∈ run.map tableIndex, index < 256 := by
    rw [List.forall_mem_map]
    intro char member
    exact (tableIndex_lt_iff char).mpr ((mem_alphabet_iff urlSafe char).mp
      (inAlphabet char member)).1
  rw [← parts] at counted indices
  rw [counted, indices, List.forall_mem_append, Ne, Option.map_eq_none_iff]
  cases rest : afterAlphabet urlSafe data with
  | nil =>
    exact ⟨Option.some_ne_none _, runIndices, fun _ absent => absurd absent List.not_mem_nil⟩
  | cons char later =>
    rw [rest] at ascii stops
    have inRange := ascii char rfl
    by_cases ends : char = padding
    · rw [decodeLength, scanIndices, if_pos ends, if_pos ends]
      exact ⟨Option.some_ne_none _, runIndices, fun _ absent => absurd absent List.not_mem_nil⟩
    · obtain ⟨rejected, lookedUp⟩ := scan_stop urlSafe (stops char rfl) ends later
      rw [rejected, lookedUp, if_pos inRange]
      exact ⟨Option.some_ne_none _, runIndices,
        List.forall_mem_singleton.mpr ((tableIndex_lt_iff char).mpr inRange)⟩

/-- The character at which the first loop stops is looked up. -/
theorem tableIndex_mem_decodeIndices {urlSafe : Bool} {data : Bytes} {char : UInt8}
    (first : char ∈ (afterAlphabet urlSafe data).head?) (notPadding : char ≠ padding) :
    tableIndex char ∈ decodeIndices data urlSafe := by
  obtain ⟨run, inAlphabet, parts, stops⟩ := exists_run urlSafe data
  obtain ⟨later, rest⟩ := List.head?_eq_some_iff.mp first
  have lookedUp := (scan_stop urlSafe (stops char first) notPadding later).2
  have indices := (decodeLength_append inAlphabet (afterAlphabet urlSafe data)).2
  rw [← parts, rest, lookedUp] at indices
  rw [decodeIndices, indices]
  exact List.mem_append_left _ (List.mem_append_right _ (List.mem_singleton_self _))

theorem loopIndices_inRange {urlSafe : Bool} {data : Bytes} {length : ℕ}
    (counted : decodeLength urlSafe data = some (some length)) :
    ∀ index ∈ loopIndices (data.take length), index < 256 := by
  intro index member
  have valid := valid_of_decodeLength counted
  have same : length = (beforePadding data).length :=
    Option.some.inj (Option.some.inj
      (counted.symm.trans (decodeLength_of_valid urlSafe data valid)))
  rw [same, take_beforePadding] at member
  obtain ⟨char, found, rfl⟩ := List.mem_map.mp (mem_of_mem_loopIndices member)
  exact (tableIndex_lt_iff char).mpr (valid char found).1

/-- The decoder reads only inside its table and rejects every string with a character above the
ASCII range before the padding, exactly if the first character that is not of the alphabet is in the
ASCII range. -/
theorem decodeBase64_inTable_iff (data : Bytes) (urlSafe : Bool) :
    ((∀ index ∈ decodeIndices data urlSafe, index < 256) ∧
        ((∃ char ∈ beforePadding data, 128 ≤ char) → decodeBase64 data urlSafe = some none)) ↔
      ∀ char ∈ (afterAlphabet urlSafe data).head?, char < 128 := by
  constructor
  · rintro ⟨inTable, -⟩ char first
    by_cases ends : char = padding
    · rw [ends]
      decide
    · exact (tableIndex_lt_iff char).mp (inTable _ (tableIndex_mem_decodeIndices first ends))
  · intro ascii
    obtain ⟨defined, scanned⟩ := scan_inRange ascii
    rw [decodeIndices, List.forall_mem_append, decodeBase64]
    cases counted : decodeLength urlSafe data with
    | none => exact absurd counted defined
    | some answer =>
      cases answer with
      | none =>
        exact ⟨⟨scanned, fun _ absent => absurd absent List.not_mem_nil⟩, fun _ => rfl⟩
      | some length =>
        refine ⟨⟨scanned, fun index member => ?_⟩, ?_⟩
        · simp only at member
          split at member
          · exact absurd member List.not_mem_nil
          · exact loopIndices_inRange counted index member
        · rintro ⟨char, found, high⟩
          exact absurd (valid_of_decodeLength counted char found).1 (UInt8.not_lt.mpr high)

/-- The character `0x80` is looked up `2 ^ 64 - 128` entries behind the start of the table. -/
theorem highChar_outsideTable :
    decodeIndices [0x80] false = [2 ^ 64 - 128] ∧ ¬2 ^ 64 - 128 < 256 ∧
      decodeBase64 [0x80] false ≠ some none := by
  decide

/-! ### Accepting Base64 -/

/-- The strings that are Base64: characters of the alphabet, not one left over, and then padding. -/
def IsBase64 (urlSafe : Bool) (text : Bytes) : Prop :=
  ∃ body count, text = body ++ List.replicate count padding ∧
    (∀ char ∈ body, char ∈ alphabet urlSafe) ∧ body.length % 4 ≠ 1

/-- What stands before the first padding is Base64. -/
def BodyIsBase64 (urlSafe : Bool) (text : Bytes) : Prop :=
  (∀ char ∈ beforePadding text, char ∈ alphabet urlSafe) ∧ (beforePadding text).length % 4 ≠ 1

theorem accepted_iff (text : Bytes) (urlSafe : Bool) :
    (∃ result, decodeBase64 text urlSafe = some (some result)) ↔ BodyIsBase64 urlSafe text := by
  simp only [decodeBase64_eq_some_iff, exists_and_left, exists_eq, and_true, BodyIsBase64,
    mem_alphabet_iff]

/-- The string from the first padding on. -/
def fromPadding (text : Bytes) : Bytes := text.dropWhile fun char => char ≠ padding

theorem beforePadding_append (text : Bytes) : beforePadding text ++ fromPadding text = text :=
  List.takeWhile_append_dropWhile

theorem beforePadding_body {urlSafe : Bool} {body : Bytes}
    (inAlphabet : ∀ char ∈ body, char ∈ alphabet urlSafe) (count : ℕ) :
    beforePadding (body ++ List.replicate count padding) = body ∧
      fromPadding (body ++ List.replicate count padding) = List.replicate count padding := by
  have noPadding : ∀ char ∈ body, decide (char ≠ padding) = true := fun char member =>
    decide_eq_true fun same => padding_notMem_alphabet urlSafe (same ▸ inAlphabet char member)
  constructor
  · rw [beforePadding, List.takeWhile_append_of_pos noPadding, List.takeWhile_replicate]
    simp
  · rw [fromPadding, List.dropWhile_append_of_pos noPadding, List.dropWhile_replicate]
    simp

/-- A string is Base64 exactly if what stands before the first padding is and nothing but padding
follows. -/
theorem isBase64_iff (urlSafe : Bool) (text : Bytes) :
    IsBase64 urlSafe text ↔
      BodyIsBase64 urlSafe text ∧ ∀ char ∈ fromPadding text, char = padding := by
  constructor
  · rintro ⟨body, count, rfl, inAlphabet, notSingle⟩
    obtain ⟨before, behind⟩ := beforePadding_body inAlphabet count
    rw [BodyIsBase64, before, behind]
    exact ⟨⟨inAlphabet, notSingle⟩, fun char member => List.eq_of_mem_replicate member⟩
  · rintro ⟨⟨inAlphabet, notSingle⟩, onlyPadding⟩
    refine ⟨beforePadding text, (fromPadding text).length, ?_, inAlphabet, notSingle⟩
    rw [← List.eq_replicate_of_mem onlyPadding, beforePadding_append]

/-- The decoder accepts exactly Base64 if and only if nothing but padding stands behind the first
padding, or what stands before it is not Base64 either. -/
theorem accepts_base64_iff (text : Bytes) (urlSafe : Bool) :
    ((∃ result, decodeBase64 text urlSafe = some (some result)) ↔ IsBase64 urlSafe text) ↔
      (∀ char ∈ fromPadding text, char = padding) ∨ ¬BodyIsBase64 urlSafe text := by
  rw [accepted_iff, isBase64_iff]
  tauto

/-- What follows the padding is not looked at. -/
theorem trailing_accepted :
    decodeBase64 (ascii "QQ=*") false = some (some (ascii "A")) ∧
      ¬IsBase64 false (ascii "QQ=*") := by
  refine ⟨rfl, fun base64 => ?_⟩
  have onlyPadding := ((isBase64_iff false (ascii "QQ=*")).mp base64).2
  exact absurd (onlyPadding 42 (by decide)) (by decide)

end NativeLibs.Base64
