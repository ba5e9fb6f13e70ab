/-
This file shows which texts `string_to_guid` accepts and which of them it reads
beyond their end, and that it reads back what `guid_to_string` prints.

A text that passes the check of the dashes has five fields. With a closing brace
behind the last one the parser does what it should. Without it, a text that could be
accepted is read beyond its end, as is one with further dashes in the last field.
-/

import NativeLibs.Text.Guid

namespace NativeLibs.Guids

/-! ### The fields of a text -/

/-- Five fields of 8, 4, 4, 4 and 12 characters. -/
structure Fields where
  first : Bytes
  second : Bytes
  third : Bytes
  fourth : Bytes
  last : Bytes
  firstSize : first.length = 8
  secondSize : second.length = 4
  thirdSize : third.length = 4
  fourthSize : fourth.length = 4
  lastSize : last.length = 12

namespace Fields

/-- The fields with dashes between them. -/
def text (fields : Fields) : Bytes :=
  fields.first ++ dash :: (fields.second ++ dash :: (fields.third ++ dash :: (fields.fourth ++
    dash :: fields.last)))

/-- The first four fields consist of digits. -/
def frontHex (fields : Fields) : Bool :=
  fields.first.all isHex && fields.second.all isHex && fields.third.all isHex &&
    fields.fourth.all isHex

/-- The GUID that the fields stand for. -/
def guid (fields : Fields) : Guid where
  data1 := UInt32.ofNat (digitsValue 16 fields.first)
  data2 := UInt16.ofNat (digitsValue 16 fields.second)
  data3 := UInt16.ofNat (digitsValue 16 fields.third)
  data4 := pairBytes 8 (fields.fourth ++ fields.last)

theorem length_text (fields : Fields) : fields.text.length = 36 := by
  simp only [text, List.length_append, List.length_cons, fields.firstSize, fields.secondSize,
    fields.thirdSize, fields.fourthSize, fields.lastSize]

theorem text_injective {fields other : Fields} (same : fields.text = other.text) :
    fields = other := by
  obtain ⟨first, later⟩ := List.append_inj same (fields.firstSize.trans other.firstSize.symm)
  obtain ⟨second, later⟩ := List.append_inj (List.cons.inj later).2
    (fields.secondSize.trans other.secondSize.symm)
  obtain ⟨third, later⟩ := List.append_inj (List.cons.inj later).2
    (fields.thirdSize.trans other.thirdSize.symm)
  obtain ⟨fourth, later⟩ := List.append_inj (List.cons.inj later).2
    (fields.fourthSize.trans other.fourthSize.symm)
  cases fields
  cases other
  cases first
  cases second
  cases third
  cases fourth
  cases (List.cons.inj later).2
  rfl

end Fields

/-- The first two bytes of `Data4`, with the dash after them. -/
theorem readData4_front (count : ℕ) (first second third fourth : UInt8) (rest : Bytes) :
    readData4 (count + 2) ([first, second, third, fourth] ++ dash :: rest) =
      if [first, second, third, fourth].all isHex then
        (readData4 count rest).andThen fun bytes =>
          .value (UInt8.ofNat (digitsValue 16 [first, second]) ::ᵥ
            UInt8.ofNat (digitsValue 16 [third, fourth]) ::ᵥ bytes)
      else .failed := by
  have hex : [first, second, third, fourth].all isHex =
      ((isHex first && isHex second) && (isHex third && isHex fourth)) := by
    simp only [List.all_cons, List.all_nil, Bool.and_true, Bool.and_assoc]
  rw [hex]
  show readData4 (count + 2) (first :: second :: third :: (fourth :: dash :: rest)) = _
  rw [readData4_cons]
  cases isHex first && isHex second with
  | false => rfl
  | true =>
    rw [if_pos rfl, Bool.true_and]
    by_cases early : third = dash
    · rw [if_pos early, early, not_isHex_dash, readData4, readField_pair, not_isHex_dash,
        Bool.and_false]
      rfl
    · rw [if_neg early, readData4_cons, if_pos rfl]
      cases isHex third && isHex fourth with
      | false => rfl
      | true => cases readData4 count rest with
        | outside => rfl
        | failed => rfl
        | value bytes => rfl

/-- A field of `count` characters is read if it consists of digits. -/
theorem readField_of_length {field : Bytes} {count width : ℕ} (size : field.length = count + 1)
    (fits : 4 * (count + 1) ≤ width) (rest : Bytes) :
    readField (field ++ rest) (count + 1) width =
      if field.all isHex then .value (digitsValue 16 field) else .failed := by
  have nonempty : field ≠ [] := List.ne_nil_of_length_eq_add_one size
  rw [← size] at fits ⊢
  exact readField_append nonempty rest fits

theorem drop_field {field : Bytes} {count : ℕ} (size : field.length = count) (rest : Bytes) :
    (field ++ dash :: rest).drop (count + 1) = rest := by
  rw [← size, ← List.drop_drop, List.drop_left]
  rfl

theorem readFields_text (fields : Fields) (more : Bytes) :
    readFields (fields.text ++ more) =
      if fields.frontHex then
        (readData4 6 (fields.last ++ more)).andThen fun bytes =>
          .value { fields.guid with
            data4 := UInt8.ofNat (digitsValue 16 (fields.fourth.take 2)) ::ᵥ
              UInt8.ofNat (digitsValue 16 (fields.fourth.drop 2)) ::ᵥ bytes }
      else .failed := by
  have whole : fields.text ++ more = fields.first ++ dash :: (fields.second ++ dash ::
      (fields.third ++ dash :: (fields.fourth ++ dash :: (fields.last ++ more)))) := by
    simp only [Fields.text, List.append_assoc, List.cons_append]
  have afterFirst := drop_field fields.firstSize (fields.second ++ dash ::
    (fields.third ++ dash :: (fields.fourth ++ dash :: (fields.last ++ more))))
  have afterSecond := drop_field fields.secondSize
    (fields.third ++ dash :: (fields.fourth ++ dash :: (fields.last ++ more)))
  have afterThird := drop_field fields.thirdSize
    (fields.fourth ++ dash :: (fields.last ++ more))
  rw [← afterFirst, List.drop_drop] at afterSecond
  rw [← afterSecond, List.drop_drop] at afterThird
  obtain ⟨first, second, third, fourth, pairs⟩ := List.length_eq_four.mp fields.fourthSize
  rw [readFields, whole, afterFirst, afterSecond, afterThird,
    readField_of_length fields.firstSize (by decide),
    readField_of_length fields.secondSize (by decide),
    readField_of_length fields.thirdSize (by decide), Fields.frontHex, pairs, readData4_front]
  cases fields.first.all isHex with
  | false => rfl
  | true => cases fields.second.all isHex with
    | false => rfl
    | true => cases fields.third.all isHex with
      | false => rfl
      | true => cases [first, second, third, fourth].all isHex with
        | false => rfl
        | true => cases readData4 6 (fields.last ++ more) with
          | outside => rfl
          | failed => rfl
          | value bytes => rfl

theorem readFields_closed (fields : Fields) :
    readFields (fields.text ++ [125]) =
      if fields.frontHex && fields.last.all isHex then .value fields.guid else .failed := by
  rw [readFields_text, readData4_closed fields.lastSize.le]
  cases fields.frontHex with
  | false => rfl
  | true =>
    rw [if_pos rfl, Bool.true_and]
    by_cases hex : fields.last.all isHex = true
    · rw [if_pos ⟨fields.lastSize, hex⟩, if_pos hex, Fields.guid]
      obtain ⟨first, second, third, fourth, pairs⟩ := List.length_eq_four.mp fields.fourthSize
      rw [pairs]
      rfl
    · rw [if_neg fun both => hex both.2, if_neg hex]
      rfl

theorem readFields_open (fields : Fields) :
    readFields fields.text =
      if fields.frontHex && runsOut fields.last then .outside else .failed := by
  have whole := readFields_text fields []
  rw [List.append_nil, List.append_nil, readData4_open fields.lastSize.le] at whole
  rw [whole]
  cases fields.frontHex with
  | false => rfl
  | true => cases runsOut fields.last with
    | true => rfl
    | false => rfl

/-! ### The dashes and the braces -/

theorem getElem?_field {field : Bytes} {count : ℕ} (size : field.length = count) (rest : Bytes)
    (index : ℕ) : (field ++ dash :: rest)[count + 1 + index]? = rest[index]? := by
  rw [List.getElem?_append_right (by omega), size, Nat.add_assoc, Nat.add_sub_cancel_left,
    Nat.add_comm, List.getElem?_cons_succ]

theorem getElem?_dash {field : Bytes} {count : ℕ} (size : field.length = count) (rest : Bytes) :
    (field ++ dash :: rest)[count]? = some dash := by
  rw [List.getElem?_append_right size.le, size, Nat.sub_self, List.getElem?_cons_zero]

/-- The dashes are where they should be. -/
def Dashed (text : Bytes) : Prop :=
  text[8]? = some dash ∧ text[13]? = some dash ∧ text[18]? = some dash ∧ text[23]? = some dash

theorem dashed_text (fields : Fields) : Dashed fields.text := by
  refine ⟨getElem?_dash fields.firstSize _, ?_, ?_, ?_⟩
  · exact (getElem?_field fields.firstSize _ 4).trans (getElem?_dash fields.secondSize _)
  · exact (getElem?_field fields.firstSize _ 9).trans
      ((getElem?_field fields.secondSize _ 4).trans (getElem?_dash fields.thirdSize _))
  · exact (getElem?_field fields.firstSize _ 14).trans
      ((getElem?_field fields.secondSize _ 9).trans
        ((getElem?_field fields.thirdSize _ 4).trans (getElem?_dash fields.fourthSize _)))

theorem exists_split {text : Bytes} {index : ℕ} {byte : UInt8} (here : text[index]? = some byte) :
    ∃ front back, text = front ++ byte :: back ∧ front.length = index := by
  obtain ⟨inside, same⟩ := List.getElem?_eq_some_iff.mp here
  refine ⟨text.take index, text.drop (index + 1), ?_, List.length_take_of_le inside.le⟩
  rw [← same, ← List.drop_eq_getElem_cons inside, List.take_append_drop]

theorem exists_fields {text : Bytes} (length : text.length = 36) (dashed : Dashed text) :
    ∃ fields : Fields, text = fields.text := by
  obtain ⟨eight, thirteen, eighteen, twentyThree⟩ := dashed
  obtain ⟨first, rest, rfl, firstSize⟩ := exists_split eight
  rw [getElem?_field firstSize rest 4] at thirteen
  rw [getElem?_field firstSize rest 9] at eighteen
  rw [getElem?_field firstSize rest 14] at twentyThree
  obtain ⟨second, rest, rfl, secondSize⟩ := exists_split thirteen
  rw [getElem?_field secondSize rest 4] at eighteen
  rw [getElem?_field secondSize rest 9] at twentyThree
  obtain ⟨third, rest, rfl, thirdSize⟩ := exists_split eighteen
  rw [getElem?_field thirdSize rest 4] at twentyThree
  obtain ⟨fourth, last, rfl, fourthSize⟩ := exists_split twentyThree
  have lastSize : last.length = 12 := by
    simp only [List.length_append, List.length_cons] at length
    omega
  exact ⟨⟨first, second, third, fourth, last, firstSize, secondSize, thirdSize, fourthSize,
    lastSize⟩, rfl⟩

theorem length_braced (text : Bytes) : (braced text).length = text.length + 2 := by
  rw [braced, List.length_cons, List.length_append, List.length_singleton]

theorem enclosed_iff (guidStr : Bytes) :
    (guidStr.length = 38 ∧ guidStr[0]? = some 123 ∧ guidStr[37]? = some 125) ↔
      ∃ text : Bytes, text.length = 36 ∧ guidStr = braced text := by
  constructor
  · rintro ⟨length, opening, closing⟩
    obtain ⟨front, rest, rfl, frontSize⟩ := exists_split closing
    rw [List.length_append, List.length_cons, frontSize] at length
    obtain rfl := List.eq_nil_of_length_eq_zero (show rest.length = 0 by omega)
    obtain ⟨first, text, rfl⟩ := List.exists_cons_of_length_eq_add_one frontSize
    obtain rfl := Option.some.inj opening
    exact ⟨text, Nat.succ.inj frontSize, rfl⟩
  · rintro ⟨text, length, rfl⟩
    refine ⟨by rw [length_braced, length], rfl, ?_⟩
    rw [braced, List.getElem?_cons_succ, List.getElem?_append_right length.le, length]
    rfl

theorem readView_of_dashed {pointer : Bytes} (dashed : Dashed pointer) :
    readView pointer 36 = readFields pointer := by
  obtain ⟨eight, thirteen, eighteen, twentyThree⟩ := dashed
  rw [readView, if_neg]
  rw [not_or, not_or, not_or, not_or, not_not, not_not, not_not, not_not, not_not]
  exact ⟨rfl, eight, thirteen, eighteen, twentyThree⟩

theorem readView_eq_failed {pointer : Bytes} {size : ℕ} (other : ¬(size = 36 ∧ Dashed pointer)) :
    readView pointer size = .failed := by
  rw [readView, if_pos]
  rwa [Dashed, not_and_or, not_and_or, not_and_or, not_and_or] at other

theorem dashed_append_iff {text : Bytes} (length : text.length = 36) (byte : UInt8) :
    Dashed (text ++ [byte]) ↔ Dashed text := by
  rw [Dashed, Dashed, List.getElem?_append_left (by omega), List.getElem?_append_left (by omega),
    List.getElem?_append_left (by omega), List.getElem?_append_left (by omega)]

theorem stringToGuid_braced {text : Bytes} (length : text.length = 36) :
    stringToGuid (braced text) = readView (text ++ [125]) 36 := by
  have nonempty : braced text ≠ [] := List.cons_ne_nil _ _
  rw [stringToGuid, if_neg nonempty, if_pos ((enclosed_iff _).mpr ⟨text, length, rfl⟩)]
  rfl

theorem stringToGuid_plain {guidStr : Bytes}
    (plain : ¬∃ text : Bytes, text.length = 36 ∧ guidStr = braced text) :
    stringToGuid guidStr = readView guidStr guidStr.length := by
  rw [stringToGuid, if_neg fun enclosed => plain ((enclosed_iff guidStr).mp enclosed)]
  split
  · rename_i empty
    rw [empty]
    rfl
  · rfl

/-- The texts that get as far as the fields: with braces, without them, and the others. -/
theorem stringToGuid_cases (guidStr : Bytes) :
    (∃ fields : Fields, guidStr = braced fields.text ∧
        stringToGuid guidStr = readFields (fields.text ++ [125])) ∨
      (∃ fields : Fields, guidStr = fields.text ∧ stringToGuid guidStr = readFields fields.text) ∨
      stringToGuid guidStr = .failed ∧
        ∀ fields : Fields, guidStr ≠ fields.text ∧ guidStr ≠ braced fields.text := by
  by_cases enclosed : ∃ text : Bytes, text.length = 36 ∧ guidStr = braced text
  · obtain ⟨text, length, rfl⟩ := enclosed
    rw [stringToGuid_braced length]
    by_cases dashed : Dashed text
    · obtain ⟨fields, rfl⟩ := exists_fields length dashed
      exact .inl ⟨fields, rfl, readView_of_dashed ((dashed_append_iff length 125).mpr dashed)⟩
    · refine .inr (.inr ⟨readView_eq_failed fun both =>
        dashed ((dashed_append_iff length 125).mp both.2), fun fields => ⟨fun same => ?_,
          fun same => ?_⟩⟩)
      · have lengths := congrArg List.length same
        rw [length_braced, length, fields.length_text] at lengths
        omega
      · have inner := List.append_cancel_right (List.cons.inj same).2
        exact dashed (inner ▸ dashed_text fields)
  · rw [stringToGuid_plain enclosed]
    by_cases good : guidStr.length = 36 ∧ Dashed guidStr
    · obtain ⟨fields, rfl⟩ := exists_fields good.1 good.2
      refine .inr (.inl ⟨fields, rfl, ?_⟩)
      rw [good.1, readView_of_dashed good.2]
    · refine .inr (.inr ⟨readView_eq_failed good, fun fields => ⟨?_, ?_⟩⟩)
      · rintro rfl
        exact good ⟨fields.length_text, dashed_text fields⟩
      · rintro rfl
        exact enclosed ⟨fields.text, fields.length_text, rfl⟩

/-! ### Printing -/

theorem hexBytes_cons (byte : UInt8) (bytes : Bytes) :
    hexBytes (byte :: bytes) = hexField 2 byte.toNat ++ hexBytes bytes := rfl

theorem hexBytes_append (bytes others : Bytes) :
    hexBytes (bytes ++ others) = hexBytes bytes ++ hexBytes others :=
  List.flatMap_append

theorem length_hexBytes (bytes : Bytes) : (hexBytes bytes).length = 2 * bytes.length := by
  induction bytes with
  | nil => rfl
  | cons byte bytes inductionHypothesis =>
    rw [hexBytes_cons, List.length_append, length_hexField, inductionHypothesis, List.length_cons]
    omega

theorem isHex_hexBytes (bytes : Bytes) : (hexBytes bytes).all isHex = true := by
  induction bytes with
  | nil => rfl
  | cons byte bytes inductionHypothesis =>
    rw [hexBytes_cons, List.all_append, isHex_hexField, inductionHypothesis]
    rfl

theorem hexBytes_pairBytes (count : ℕ) {digits : Bytes} (size : digits.length = 2 * count)
    (hex : digits.all isHex = true) :
    hexBytes (pairBytes count digits).toList = digits.map toLower := by
  induction count generalizing digits with
  | zero =>
    obtain rfl := List.eq_nil_of_length_eq_zero size
    rfl
  | succ count inductionHypothesis =>
    obtain ⟨first, more, rfl⟩ := List.exists_cons_of_length_eq_add_one size
    obtain ⟨second, rest, rfl⟩ := List.exists_cons_of_length_eq_add_one (Nat.succ.inj size)
    have pair : [first, second].all isHex = true ∧ rest.all isHex = true := by
      rw [show first :: second :: rest = [first, second] ++ rest from rfl, List.all_append,
        Bool.and_eq_true] at hex
      exact hex
    have byte : (UInt8.ofNat (digitsValue 16 [first, second])).toNat =
        digitsValue 16 [first, second] := UInt8.toNat_ofNat_of_lt' (digitsValue_lt [first, second])
    have later := inductionHypothesis (Nat.succ.inj (Nat.succ.inj size)) pair.2
    show hexBytes (UInt8.ofNat (digitsValue 16 [first, second]) ::
      (pairBytes count rest).toList) = _
    rw [hexBytes_cons, byte, later]
    exact congrArg (· ++ rest.map toLower) (hexField_digitsValue pair.1)

theorem pairBytes_hexBytes {count : ℕ} (bytes : List.Vector UInt8 count) :
    pairBytes count (hexBytes bytes.toList) = bytes := by
  induction bytes using List.Vector.inductionOn with
  | nil => rfl
  | cons inductionHypothesis =>
    rename_i count byte bytes
    have length := length_hexField 2 byte.toNat
    rw [List.Vector.toList_cons, hexBytes_cons, pairBytes, List.take_left' length,
      List.drop_left' length, digitsValue_hexField byte.toNat_lt, UInt8.ofNat_toNat,
      inductionHypothesis]

theorem guidToString_guid {fields : Fields} (hex : fields.frontHex = true)
    (lastHex : fields.last.all isHex = true) :
    guidToString fields.guid = braced (fields.text.map toLower) := by
  rw [Fields.frontHex, Bool.and_eq_true, Bool.and_eq_true, Bool.and_eq_true] at hex
  obtain ⟨⟨⟨firstHex, secondHex⟩, thirdHex⟩, fourthHex⟩ := hex
  have first := hexField_digitsValue firstHex
  have second := hexField_digitsValue secondHex
  have third := hexField_digitsValue thirdHex
  have firstFits := digitsValue_lt fields.first
  have secondFits := digitsValue_lt fields.second
  have thirdFits := digitsValue_lt fields.third
  rw [fields.firstSize] at first firstFits
  rw [fields.secondSize] at second secondFits
  rw [fields.thirdSize] at third thirdFits
  have fourth := hexBytes_pairBytes 2 fields.fourthSize fourthHex
  have last := hexBytes_pairBytes 6 fields.lastSize lastHex
  have front : fields.guid.data4.toList.take 2 = (pairBytes 2 fields.fourth).toList ∧
      fields.guid.data4.toList.drop 2 = (pairBytes 6 fields.last).toList := by
    obtain ⟨one, two, three, four, pairs⟩ := List.length_eq_four.mp fields.fourthSize
    rw [Fields.guid, pairs]
    exact ⟨rfl, rfl⟩
  have data1 : fields.guid.data1.toNat = digitsValue 16 fields.first :=
    UInt32.toNat_ofNat_of_lt' firstFits
  have data2 : fields.guid.data2.toNat = digitsValue 16 fields.second :=
    UInt16.toNat_ofNat_of_lt' secondFits
  have data3 : fields.guid.data3.toNat = digitsValue 16 fields.third :=
    UInt16.toNat_ofNat_of_lt' thirdFits
  rw [guidToString, front.1, front.2, fourth, last, data1, data2, data3, first, second, third,
    Fields.text]
  simp only [List.map_append, List.map_cons]
  rfl

/-- The fields that are printed for a GUID. -/
def fieldsOf (guid : Guid) : Fields where
  first := hexField 8 guid.data1.toNat
  second := hexField 4 guid.data2.toNat
  third := hexField 4 guid.data3.toNat
  fourth := hexBytes (guid.data4.toList.take 2)
  last := hexBytes (guid.data4.toList.drop 2)
  firstSize := length_hexField 8 _
  secondSize := length_hexField 4 _
  thirdSize := length_hexField 4 _
  fourthSize := by
    rw [length_hexBytes, List.length_take, List.Vector.toList_length]
    rfl
  lastSize := by rw [length_hexBytes, List.length_drop, List.Vector.toList_length]

theorem frontHex_fieldsOf (guid : Guid) : (fieldsOf guid).frontHex = true := by
  simp only [Fields.frontHex, fieldsOf, isHex_hexField, isHex_hexBytes, Bool.and_true]

theorem guid_fieldsOf (guid : Guid) : (fieldsOf guid).guid = guid := by
  have data4 : pairBytes 8 (hexBytes (guid.data4.toList.take 2) ++
      hexBytes (guid.data4.toList.drop 2)) = guid.data4 := by
    rw [← hexBytes_append, List.take_append_drop, pairBytes_hexBytes]
  simp only [Fields.guid, fieldsOf, data4]
  rw [digitsValue_hexField guid.data1.toNat_lt, digitsValue_hexField guid.data2.toNat_lt,
    digitsValue_hexField guid.data3.toNat_lt, UInt32.ofNat_toNat, UInt16.ofNat_toNat,
    UInt16.ofNat_toNat]

theorem stringToGuid_guidToString (guid : Guid) :
    stringToGuid (guidToString guid) = .value guid := by
  have length := (fieldsOf guid).length_text
  have dashed := (dashed_append_iff length 125).mpr (dashed_text (fieldsOf guid))
  rw [show guidToString guid = braced (fieldsOf guid).text from rfl, stringToGuid_braced length,
    readView_of_dashed dashed, readFields_closed, frontHex_fieldsOf,
    show (fieldsOf guid).last.all isHex = true from isHex_hexBytes _, guid_fieldsOf]
  rfl

/-! ### What is accepted -/

/-- A text of 32 digits that are grouped by dashes. -/
def Grouped (text : Bytes) : Prop :=
  ∃ fields : Fields, text = fields.text ∧ fields.frontHex = true ∧ fields.last.all isHex = true

/-- The function reads only the text, it accepts grouped digits with or without braces, and the
GUID is printed as the text, in braces and in lower case. -/
structure Parsed (guidStr : Bytes) : Prop where
  inside : stringToGuid guidStr ≠ .outside
  accepts : (∃ guid, stringToGuid guidStr = .value guid) ↔
    ∃ text, (guidStr = text ∨ guidStr = braced text) ∧ Grouped text
  prints : ∀ guid, stringToGuid guidStr = .value guid →
    ∃ text, (guidStr = text ∨ guidStr = braced text) ∧
      guidToString guid = braced (text.map toLower)

/-- A text without braces whose first four fields consist of digits, and whose last field consists
of pairs of digits with at most one dash after each of them, and perhaps one more digit. -/
def ReadToTheEnd (guidStr : Bytes) : Prop :=
  ∃ fields : Fields, guidStr = fields.text ∧ fields.frontHex = true ∧ runsOut fields.last = true

theorem braced_ne_text (fields other : Fields) : braced fields.text ≠ other.text := by
  intro equal
  have lengths := congrArg List.length equal
  rw [length_braced, fields.length_text, other.length_text] at lengths
  omega

theorem braced_injective {text other : Bytes} (same : braced text = braced other) : text = other :=
  List.append_cancel_right (List.cons.inj same).2

theorem parsed_of_failed {guidStr : Bytes} (failed : stringToGuid guidStr = .failed)
    (others : ∀ fields : Fields, fields.frontHex = true → fields.last.all isHex = true →
      guidStr ≠ fields.text ∧ guidStr ≠ braced fields.text) : Parsed guidStr := by
  have rejected : ∀ guid, stringToGuid guidStr ≠ .value guid := by
    intro guid accepted
    rw [failed] at accepted
    cases accepted
  refine ⟨?_, ?_, fun guid accepted => absurd accepted (rejected guid)⟩
  · rw [failed]
    rintro ⟨⟩
  · refine iff_of_false (fun ⟨guid, accepted⟩ => rejected guid accepted) ?_
    rintro ⟨text, form, fields, rfl, hex, lastHex⟩
    exact form.elim (others fields hex lastHex).1 (others fields hex lastHex).2

theorem parsed_braced {fields : Fields}
    (read : stringToGuid (braced fields.text) = readFields (fields.text ++ [125])) :
    Parsed (braced fields.text) := by
  rw [readFields_closed] at read
  by_cases hex : (fields.frontHex && fields.last.all isHex) = true
  · rw [if_pos hex] at read
    rw [Bool.and_eq_true] at hex
    refine ⟨?_, ?_, ?_⟩
    · rw [read]
      rintro ⟨⟩
    · exact iff_of_true ⟨_, read⟩ ⟨fields.text, .inr rfl, fields, rfl, hex⟩
    · intro guid accepted
      rw [read] at accepted
      obtain rfl := Reading.value.inj accepted
      exact ⟨fields.text, .inr rfl, guidToString_guid hex.1 hex.2⟩
  · rw [if_neg hex] at read
    refine parsed_of_failed read fun other otherHex lastHex =>
      ⟨braced_ne_text fields other, fun same => ?_⟩
    obtain rfl := Fields.text_injective (braced_injective same)
    exact hex (by rw [otherHex, lastHex]; rfl)

theorem parsed_plain_iff {fields : Fields}
    (read : stringToGuid fields.text = readFields fields.text) :
    Parsed fields.text ↔ ¬ReadToTheEnd fields.text := by
  rw [readFields_open] at read
  have reached : ReadToTheEnd fields.text ↔ (fields.frontHex && runsOut fields.last) = true := by
    rw [Bool.and_eq_true]
    refine ⟨?_, fun both => ⟨fields, rfl, both⟩⟩
    rintro ⟨other, same, both⟩
    exact Fields.text_injective same ▸ both
  rw [reached]
  by_cases beyond : (fields.frontHex && runsOut fields.last) = true
  · rw [if_pos beyond] at read
    exact iff_of_false (fun parsed => parsed.inside read) fun fine => fine beyond
  · rw [if_neg beyond] at read
    refine iff_of_true (parsed_of_failed read fun other otherHex lastHex => ⟨fun same => ?_,
      (braced_ne_text other fields).symm⟩) beyond
    obtain rfl := Fields.text_injective same
    exact beyond (by rw [otherHex, runsOut_of_isHex lastHex]; rfl)

/-- `string_to_guid` does what it should except for texts without braces that it can read to the
end. These include every text without braces that it should accept. What `guid_to_string` prints is
always read back. -/
theorem stringToGuid_parsed_iff (guidStr : Bytes) :
    (Parsed guidStr ↔ ¬ReadToTheEnd guidStr) ∧
      ∀ guid, stringToGuid (guidToString guid) = .value guid := by
  refine ⟨?_, stringToGuid_guidToString⟩
  rcases stringToGuid_cases guidStr with ⟨fields, rfl, read⟩ | ⟨fields, rfl, read⟩ | ⟨failed, other⟩
  · refine iff_of_true (parsed_braced read) ?_
    rintro ⟨plain, same, -⟩
    exact braced_ne_text fields plain same
  · exact parsed_plain_iff read
  · refine iff_of_true (parsed_of_failed failed fun fields _ _ => other fields) ?_
    rintro ⟨fields, same, -⟩
    exact (other fields).1 same

/-- The character after the last byte of a text without braces is read, and there is none. -/
theorem plainGuid_readBeyond :
    stringToGuid (ascii "01234567-89ab-cdef-0123-456789abcdef") = .outside ∧
      ¬Parsed (ascii "01234567-89ab-cdef-0123-456789abcdef") := by
  have beyond : stringToGuid (ascii "01234567-89ab-cdef-0123-456789abcdef") = .outside := by
    decide
  exact ⟨beyond, fun parsed => parsed.inside beyond⟩

end NativeLibs.Guids
