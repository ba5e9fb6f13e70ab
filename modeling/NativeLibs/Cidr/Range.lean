/-
This file embeds `CidrRange` of `common/cidr_range.h`: a block of addresses given
by the bytes of its first address, the mask, and the length of the prefix.
Every constructor of the class ends in `init` or leaves the object empty with an
error, so what `init` establishes is part of the type here, and a range whose
mask or address does not fit its prefix length cannot be written down.

An address is then read as a number, first byte first, and a range as a dyadic
block of such numbers. The byte-wise functions `contains` and `operator<` are
shown to be membership, inclusion and the order of these blocks.
-/

import NativeLibs.Library.DyadicBlocks
import NativeLibs.Text.Bytes

namespace NativeLibs.Cidr

open Library

/-! ### Masks -/

/-- The mask bytes `init` writes for a prefix length. -/
def prefixMask (size prefixLen : Nat) : Bytes :=
  let significantByte := (prefixLen - 1) / 8
  (List.range size).map fun index =>
    if prefixLen = 0 then 0
    else if index < significantByte then 0xff
    else if index = significantByte then
      UInt8.ofNat (0xff <<< (8 - (prefixLen - significantByte * 8)))
    else 0

/-- The address bytes `init` keeps. -/
def maskAddress (address mask : Bytes) : Bytes := List.zipWith (· &&& ·) address mask

/-- A byte whose first bits are set. -/
def maskByte (ones : Nat) : UInt8 := UInt8.ofNat (0xff <<< (8 - ones))

theorem prefixMask_succ (size prefixLen : Nat) :
    prefixMask (size + 1) prefixLen =
      maskByte (min 8 prefixLen) :: prefixMask size (prefixLen - 8) := by
  simp only [prefixMask, List.range_succ_eq_map, List.map_cons, List.map_map, List.cons.injEq]
  rcases Nat.eq_zero_or_pos prefixLen with rfl | positive
  · exact ⟨rfl, rfl⟩
  · refine ⟨?_, List.map_congr_left fun index _ => ?_⟩
    · rw [if_neg positive.ne']
      by_cases first : prefixLen ≤ 8
      · have zero : (prefixLen - 1) / 8 = 0 := by omega
        rw [zero, if_neg (lt_irrefl 0), if_pos rfl, Nat.min_eq_right first, maskByte, Nat.zero_mul,
          Nat.sub_zero]
      · rw [if_pos (by omega), Nat.min_eq_left (by omega)]
        rfl
    · simp only [Function.comp_apply, if_neg positive.ne']
      by_cases first : prefixLen ≤ 8
      · rw [if_neg (by omega), if_neg (by omega), if_pos (by omega)]
      · have shifted : (prefixLen - 1) / 8 = (prefixLen - 8 - 1) / 8 + 1 := by omega
        have shift : prefixLen - ((prefixLen - 8 - 1) / 8 + 1) * 8 =
            prefixLen - 8 - (prefixLen - 8 - 1) / 8 * 8 := by omega
        rw [if_neg (show prefixLen - 8 ≠ 0 by omega), shifted, shift]
        simp only [Nat.succ_eq_add_one, Nat.add_lt_add_iff_right, Nat.add_right_cancel_iff]

@[simp] theorem length_prefixMask (size prefixLen : Nat) :
    (prefixMask size prefixLen).length = size := by
  rw [prefixMask, List.length_map, List.length_range]

theorem maskAddress_cons (byte mask : UInt8) (address masks : Bytes) :
    maskAddress (byte :: address) (mask :: masks) = (byte &&& mask) :: maskAddress address masks :=
  rfl

@[simp] theorem length_maskAddress (address : Bytes) (prefixLen : Nat) :
    (maskAddress address (prefixMask address.length prefixLen)).length = address.length := by
  rw [maskAddress, List.length_zipWith, length_prefixMask, Nat.min_self]

theorem maskAddress_maskAddress (address mask : Bytes) :
    maskAddress (maskAddress address mask) mask = maskAddress address mask := by
  induction address generalizing mask with
  | nil => rfl
  | cons byte rest inductionHypothesis =>
    cases mask with
    | nil => rfl
    | cons first masks =>
      rw [maskAddress_cons, maskAddress_cons, inductionHypothesis, UInt8.and_assoc,
        UInt8.and_self]

/-! ### Ranges -/

/-- `CidrRange`. A range that could not be made is empty and has an error. -/
structure CidrRange where
  address : Bytes
  mask : Bytes
  prefixLen : Nat
  error : String := ""
  fits : prefixLen ≤ address.length * 8
  maskOfPrefix : mask = prefixMask address.length prefixLen
  masked : maskAddress address mask = address
  deriving DecidableEq

namespace CidrRange

/-- A range whose constructor gave up. -/
def failed (error : String) : CidrRange where
  address := []
  mask := []
  prefixLen := 0
  error := error
  fits := le_rfl
  maskOfPrefix := rfl
  masked := rfl

/-- `CidrRange::init`, and the constructors from address bytes. -/
def init (address : Bytes) (prefixLen : Nat) : CidrRange :=
  if outside : prefixLen > address.length * 8 then failed "Invalid prefix length"
  else
    { address := maskAddress address (prefixMask address.length prefixLen)
      mask := prefixMask address.length prefixLen
      prefixLen := prefixLen
      fits := by
        rw [length_maskAddress]
        exact not_lt.mp outside
      maskOfPrefix := by rw [length_maskAddress]
      masked := maskAddress_maskAddress address _ }

/-- `CidrRange::valid`. -/
def valid (range : CidrRange) : Bool := range.error = ""

/-- `CidrRange::contains` for a range. -/
def contains (outer range : CidrRange) : Bool :=
  range.address.length = outer.address.length &&
    (List.range outer.address.length).all fun index =>
      outer.mask.getD index 0 = (range.mask.getD index 0 &&& outer.mask.getD index 0) &&
        (outer.address.getD index 0 &&& outer.mask.getD index 0) =
          (range.address.getD index 0 &&& outer.mask.getD index 0)

/-- `CidrRange::contains` for an address. -/
def containsAddress (range : CidrRange) (address : Bytes) : Bool :=
  address.length = range.address.length &&
    (List.range range.address.length).all fun index =>
      (range.address.getD index 0 &&& range.mask.getD index 0) =
        (address.getD index 0 &&& range.mask.getD index 0)

/-- The loop of `operator<` over the bytes, with what is returned if they are equal. -/
def lessFrom : Bytes → Bytes → Bool → Bool
  | byte :: rest, other :: others, otherwise =>
    if byte ≠ other then byte < other else lessFrom rest others otherwise
  | _, _, otherwise => otherwise

/-- `CidrRange::operator<`. -/
def less (range other : CidrRange) : Bool :=
  if range.address.length ≠ other.address.length then
    range.address.length < other.address.length
  else lessFrom range.address other.address (range.prefixLen < other.prefixLen)

/-- `CidrRange::split`. -/
def split (range : CidrRange) : Option (CidrRange × CidrRange) :=
  if range.prefixLen = range.address.length * 8 then none
  else
    let newPrefixLen := range.prefixLen + 1
    let significantByte := (newPrefixLen - 1) / 8
    let shift := 8 - (newPrefixLen - significantByte * 8)
    let right := range.address.modify significantByte (· ||| UInt8.ofNat (0x1 <<< shift))
    some (init range.address newPrefixLen, init right newPrefixLen)

end CidrRange

/-- `CidrRange::operator==`. -/
def rangeEquals (range other : CidrRange) : Bool :=
  other.address.length = range.address.length && other.prefixLen = range.prefixLen &&
    range.address = other.address

/-! ### Addresses as numbers -/

/-- The number an address spells, first byte first. -/
def addressValue : Bytes → Nat
  | [] => 0
  | byte :: rest => byte.toNat * 2 ^ (8 * rest.length) + addressValue rest

theorem addressValue_lt (address : Bytes) : addressValue address < 2 ^ (8 * address.length) := by
  induction address with
  | nil => decide
  | cons byte rest inductionHypothesis =>
    have top : byte.toNat + 1 ≤ 2 ^ 8 := byte.toNat_lt
    have room := Nat.mul_le_mul_right (2 ^ (8 * rest.length)) top
    rw [addressValue, List.length_cons, Nat.mul_succ, Nat.add_comm (8 * rest.length), pow_add]
    rw [Nat.add_mul, Nat.one_mul] at room
    exact lt_of_lt_of_le (Nat.add_lt_add_left inductionHypothesis _) room

theorem toNat_and_maskByte (byte : UInt8) (ones : Nat) (few : ones ≤ 8) :
    (byte &&& maskByte ones).toNat = byte.toNat / 2 ^ (8 - ones) * 2 ^ (8 - ones) := by
  have all : ∀ byte : UInt8, ∀ ones < 9, (byte &&& maskByte ones).toNat =
      byte.toNat / 2 ^ (8 - ones) * 2 ^ (8 - ones) := forall_byte (by decide +kernel)
  exact all byte ones (Nat.lt_succ_of_le few)

theorem and_maskByte_inj (byte other : UInt8) (ones : Nat) (few : ones ≤ 8) :
    byte &&& maskByte ones = other &&& maskByte ones ↔
      byte.toNat / 2 ^ (8 - ones) = other.toNat / 2 ^ (8 - ones) := by
  rw [← UInt8.toNat_inj, toNat_and_maskByte byte ones few, toNat_and_maskByte other ones few]
  exact Nat.mul_left_inj (Nat.two_pow_pos _).ne'

/-- The level of the block a prefix leaves open. -/
def openBits (size prefixLen : Nat) : Nat := 8 * size - prefixLen

/-- Two addresses agree under a prefix mask exactly when they lie in one block. -/
theorem agree_iff_mem_block (address other : Bytes) (sameSize : other.length = address.length)
    (prefixLen : Nat) (fits : prefixLen ≤ 8 * address.length) :
    (∀ index < address.length,
        address.getD index 0 &&& (prefixMask address.length prefixLen).getD index 0 =
          other.getD index 0 &&& (prefixMask address.length prefixLen).getD index 0) ↔
      addressValue other ∈ block (openBits address.length prefixLen) (addressValue address) := by
  induction address generalizing other prefixLen with
  | nil =>
    rw [List.length_eq_zero_iff.mp sameSize]
    exact ⟨fun _ => self_mem_block _ _, fun _ index impossible => absurd impossible (by simp)⟩
  | cons byte rest inductionHypothesis =>
    obtain ⟨otherByte, others, rfl⟩ := List.exists_cons_of_length_eq_add_one sameSize
    have restSize : others.length = rest.length := Nat.succ.inj sameSize
    have restFits : prefixLen - 8 ≤ 8 * rest.length := by
      rw [List.length_cons] at fits
      omega
    have tail := inductionHypothesis others restSize (prefixLen - 8) restFits
    have head := and_maskByte_inj byte otherByte (min 8 prefixLen) (Nat.min_le_left _ _)
    have low := addressValue_lt rest
    have otherLow := addressValue_lt others
    rw [restSize] at otherLow
    rw [List.length_cons, prefixMask_succ, Nat.forall_lt_succ_left]
    simp only [List.getD_cons_zero, List.getD_cons_succ]
    rw [head, tail, mem_block, mem_block, addressValue, addressValue, restSize]
    rcases le_total 8 prefixLen with whole | part
    · -- the first byte is compared whole, the cut is in the rest
      have cut : openBits (rest.length + 1) prefixLen = openBits rest.length (prefixLen - 8) := by
        unfold openBits
        omega
      have below : openBits rest.length (prefixLen - 8) ≤ 8 * rest.length := Nat.sub_le _ _
      rw [cut, Nat.min_eq_left whole, Nat.sub_self, pow_zero, Nat.div_one, Nat.div_one,
        add_div_low_inj _ _ _ _ _ _ below otherLow low, UInt8.toNat_inj, UInt8.toNat_inj]
      exact and_congr_left' eq_comm
    · -- the cut is in the first byte, nothing of the rest is compared
      have cut : openBits (rest.length + 1) prefixLen = 8 * rest.length + (8 - prefixLen) := by
        unfold openBits
        omega
      have none : openBits rest.length (prefixLen - 8) = 8 * rest.length := by
        unfold openBits
        omega
      rw [cut, none, Nat.min_eq_right part, add_div_high _ _ _ _ otherLow,
        add_div_high _ _ _ _ low, Nat.div_eq_of_lt low, Nat.div_eq_of_lt otherLow]
      exact ⟨fun both => both.1.symm, fun same => ⟨same.symm, rfl⟩⟩

/-- One mask lies in another exactly when its prefix is shorter. -/
theorem mask_within_iff (size prefixLen other : Nat) (fits : prefixLen ≤ 8 * size)
    (otherFits : other ≤ 8 * size) :
    (∀ index < size, (prefixMask size prefixLen).getD index 0 =
        (prefixMask size other).getD index 0 &&& (prefixMask size prefixLen).getD index 0) ↔
      prefixLen ≤ other := by
  induction size generalizing prefixLen other with
  | zero =>
    rw [Nat.le_zero.mp fits]
    exact ⟨fun _ => Nat.zero_le other, fun _ index impossible => absurd impossible (by simp)⟩
  | succ size inductionHypothesis =>
    have bytes : ∀ few < 9, ∀ many < 9,
        maskByte few = maskByte many &&& maskByte few ↔ few ≤ many := by decide +kernel
    have head := bytes (min 8 prefixLen) (by omega) (min 8 other) (by omega)
    have tail := inductionHypothesis (prefixLen - 8) (other - 8) (by omega) (by omega)
    rw [prefixMask_succ, prefixMask_succ, Nat.forall_lt_succ_left]
    simp only [List.getD_cons_zero, List.getD_cons_succ]
    rw [head, tail]
    omega

/-- Masking an address takes it to the first number of its block. -/
theorem addressValue_maskAddress (address : Bytes) (prefixLen : Nat)
    (fits : prefixLen ≤ 8 * address.length) :
    addressValue (maskAddress address (prefixMask address.length prefixLen)) =
      addressValue address / 2 ^ openBits address.length prefixLen *
        2 ^ openBits address.length prefixLen := by
  induction address generalizing prefixLen with
  | nil =>
    have zero : prefixLen = 0 := Nat.le_zero.mp fits
    rw [zero]
    rfl
  | cons byte rest inductionHypothesis =>
    rw [List.length_cons] at fits
    have low := addressValue_lt rest
    have tail := inductionHypothesis (prefixLen - 8) (by omega)
    rw [List.length_cons, prefixMask_succ, maskAddress_cons, addressValue, addressValue,
      length_maskAddress, tail, toNat_and_maskByte _ _ (Nat.min_le_left _ _)]
    rcases le_total 8 prefixLen with whole | part
    · have cut : openBits (rest.length + 1) prefixLen = openBits rest.length (prefixLen - 8) := by
        unfold openBits
        omega
      have below : openBits rest.length (prefixLen - 8) ≤ 8 * rest.length := Nat.sub_le _ _
      rw [cut, Nat.min_eq_left whole, Nat.sub_self, pow_zero, Nat.div_one, Nat.mul_one,
        add_div_low _ _ _ _ below, Nat.add_mul, mul_assoc, ← pow_add, Nat.sub_add_cancel below]
    · have cut : openBits (rest.length + 1) prefixLen = 8 * rest.length + (8 - prefixLen) := by
        unfold openBits
        omega
      have none : openBits rest.length (prefixLen - 8) = 8 * rest.length := by
        unfold openBits
        omega
      rw [cut, none, Nat.min_eq_right part, add_div_high _ _ _ _ low, Nat.div_eq_of_lt low,
        Nat.zero_mul, add_zero, pow_add, mul_comm (2 ^ (8 * rest.length)), mul_assoc]

/-! ### Ranges as blocks -/

namespace CidrRange

/-- The number of address bytes. -/
def size (range : CidrRange) : Nat := range.address.length

/-- The level of the range's block. -/
def level (range : CidrRange) : Nat := openBits range.size range.prefixLen

/-- The first number of the range's block. -/
def point (range : CidrRange) : Nat := addressValue range.address

theorem fits_bits (range : CidrRange) : range.prefixLen ≤ 8 * range.address.length := by
  rw [Nat.mul_comm]
  exact range.fits

theorem level_le_level (range other : CidrRange) (sameSize : range.size = other.size)
    (shorter : range.prefixLen ≤ other.prefixLen) : other.level ≤ range.level := by
  rw [level, level, sameSize]
  exact Nat.sub_le_sub_left shorter _

/-- A range starts where its block starts. -/
theorem aligned (range : CidrRange) : 2 ^ range.level ∣ range.point := by
  have first := addressValue_maskAddress range.address range.prefixLen range.fits_bits
  rw [← range.maskOfPrefix, range.masked] at first
  exact Dvd.intro_left _ first.symm

theorem containsAddress_iff (range : CidrRange) (address : Bytes) :
    range.containsAddress address = true ↔
      address.length = range.size ∧ addressValue address ∈ block range.level range.point := by
  unfold containsAddress
  rw [Bool.and_eq_true, decide_eq_true_eq, List.all_eq_true]
  refine and_congr_right fun sameSize => ?_
  refine Iff.trans ?_ (agree_iff_mem_block range.address address sameSize range.prefixLen
    range.fits_bits)
  rw [← range.maskOfPrefix]
  simp only [List.mem_range, decide_eq_true_eq]

theorem contains_iff (outer range : CidrRange) :
    outer.contains range = true ↔ range.size = outer.size ∧ outer.prefixLen ≤ range.prefixLen ∧
      range.point ∈ block outer.level outer.point := by
  unfold contains
  rw [Bool.and_eq_true, decide_eq_true_eq, List.all_eq_true]
  refine and_congr_right fun sameSize => ?_
  have masks := mask_within_iff outer.address.length outer.prefixLen range.prefixLen
    outer.fits_bits (sameSize ▸ range.fits_bits)
  have bytes := agree_iff_mem_block outer.address range.address sameSize outer.prefixLen
    outer.fits_bits
  rw [← outer.maskOfPrefix] at masks bytes
  have rangeMask := range.maskOfPrefix
  rw [sameSize] at rangeMask
  rw [← rangeMask] at masks
  rw [← masks]
  refine Iff.trans ?_ (and_congr_right fun _ => bytes)
  simp only [List.mem_range, Bool.and_eq_true, decide_eq_true_eq]
  exact ⟨fun both => ⟨fun index inside => (both index inside).1,
    fun index inside => (both index inside).2⟩,
    fun both index inside => ⟨both.1 index inside, both.2 index inside⟩⟩

/-- The loop of `operator<` compares the numbers, and falls through if they are equal. -/
theorem lessFrom_iff (address other : Bytes) (sameSize : address.length = other.length)
    (otherwise : Bool) :
    lessFrom address other otherwise = true ↔
      addressValue address < addressValue other ∨ address = other ∧ otherwise = true := by
  induction address generalizing other with
  | nil =>
    rw [List.length_eq_zero_iff.mp sameSize.symm]
    simp [lessFrom]
  | cons byte rest inductionHypothesis =>
    obtain ⟨otherByte, others, rfl⟩ := List.exists_cons_of_length_eq_add_one sameSize.symm
    have restSize : rest.length = others.length := Nat.succ.inj sameSize
    have low := addressValue_lt rest
    have otherLow := addressValue_lt others
    rw [restSize] at low
    rw [lessFrom, addressValue, addressValue, restSize, List.cons.injEq]
    by_cases same : byte = otherByte
    · subst same
      rw [if_neg (not_not.mpr rfl), inductionHypothesis others restSize, Nat.add_lt_add_iff_left]
      simp only [true_and]
    · have differs : byte.toNat ≠ otherByte.toNat := fun equal => same (UInt8.toNat_inj.mp equal)
      rw [if_pos same, decide_eq_true_eq, UInt8.lt_iff_toNat_lt]
      refine ⟨fun less => Or.inl ?_, ?_⟩
      · have room := Nat.mul_le_mul_right (2 ^ (8 * others.length)) (Nat.succ_le_of_lt less)
        rw [Nat.succ_mul] at room
        omega
      · rintro (less | ⟨⟨equal, -⟩, -⟩)
        · by_contra notLess
          have greater : otherByte.toNat + 1 ≤ byte.toNat := by omega
          have room := Nat.mul_le_mul_right (2 ^ (8 * others.length)) greater
          rw [Nat.succ_mul] at room
          omega
        · exact absurd equal same

theorem address_eq_of_value (address other : Bytes) (sameSize : address.length = other.length)
    (sameValue : addressValue address = addressValue other) : address = other := by
  induction address generalizing other with
  | nil => exact (List.length_eq_zero_iff.mp sameSize.symm).symm
  | cons byte rest inductionHypothesis =>
    obtain ⟨otherByte, others, rfl⟩ := List.exists_cons_of_length_eq_add_one sameSize.symm
    have restSize : rest.length = others.length := Nat.succ.inj sameSize
    rw [addressValue, addressValue, restSize] at sameValue
    have low := addressValue_lt rest
    rw [restSize] at low
    have parts := (add_div_low_inj (8 * others.length) 0 byte.toNat (addressValue rest)
      otherByte.toNat (addressValue others) (Nat.zero_le _) low (addressValue_lt others)).mp
      (by rw [sameValue])
    rw [pow_zero, Nat.div_one, Nat.div_one] at parts
    rw [UInt8.toNat_inj.mp parts.1, inductionHypothesis others restSize parts.2]

theorem less_iff (range other : CidrRange) :
    range.less other = true ↔ range.size < other.size ∨ range.size = other.size ∧
      (range.point < other.point ∨ range.point = other.point ∧
        range.prefixLen < other.prefixLen) := by
  unfold less
  by_cases sameSize : range.address.length = other.address.length
  · rw [if_neg (not_not.mpr sameSize), lessFrom_iff _ _ sameSize, decide_eq_true_eq]
    have values : range.address = other.address ↔ range.point = other.point :=
      ⟨congrArg addressValue, address_eq_of_value _ _ sameSize⟩
    rw [values]
    refine ⟨fun below => Or.inr ⟨sameSize, below⟩, ?_⟩
    rintro (smaller | ⟨-, below⟩)
    · exact absurd sameSize smaller.ne
    · exact below
  · rw [if_pos sameSize, decide_eq_true_eq]
    exact ⟨Or.inl, fun either => either.resolve_right fun both => sameSize both.1⟩

/-! ### Splitting a range -/

/-- What `init` makes of an address when the prefix length fits. -/
theorem init_spec (address : Bytes) (prefixLen : Nat) (fits : prefixLen ≤ 8 * address.length) :
    (init address prefixLen).size = address.length ∧
      (init address prefixLen).prefixLen = prefixLen ∧
      (init address prefixLen).point =
        addressValue address / 2 ^ openBits address.length prefixLen *
          2 ^ openBits address.length prefixLen := by
  have inside : ¬prefixLen > address.length * 8 := by
    rw [Nat.mul_comm]
    exact not_lt.mpr fits
  unfold init
  rw [dif_neg inside]
  exact ⟨length_maskAddress address prefixLen, rfl,
    addressValue_maskAddress address prefixLen fits⟩

theorem toNat_or_firstBit (byte : UInt8) (ones : Nat) (few : ones < 8)
    (masked : byte.toNat / 2 ^ (8 - ones) * 2 ^ (8 - ones) = byte.toNat) :
    (byte ||| UInt8.ofNat (0x1 <<< (7 - ones))).toNat = byte.toNat + 2 ^ (7 - ones) := by
  have all : ∀ byte : UInt8, ∀ ones < 8,
      byte.toNat / 2 ^ (8 - ones) * 2 ^ (8 - ones) = byte.toNat →
      (byte ||| UInt8.ofNat (0x1 <<< (7 - ones))).toNat = byte.toNat + 2 ^ (7 - ones) :=
    forall_byte (by decide +kernel)
  exact all byte ones few masked

/-- Setting the first open bit of a masked address adds its place value. -/
theorem addressValue_setBit (address : Bytes) (prefixLen : Nat)
    (inside : prefixLen < 8 * address.length)
    (masked : maskAddress address (prefixMask address.length prefixLen) = address) :
    addressValue (address.modify (prefixLen / 8)
        (· ||| UInt8.ofNat (0x1 <<< (7 - prefixLen % 8)))) =
      addressValue address + 2 ^ (8 * address.length - prefixLen - 1) := by
  induction address generalizing prefixLen with
  | nil => exact absurd inside (Nat.not_lt_zero _)
  | cons byte rest inductionHypothesis =>
    rw [List.length_cons] at inside
    rw [List.length_cons, prefixMask_succ, maskAddress_cons, List.cons.injEq] at masked
    by_cases part : prefixLen < 8
    · have kept := congrArg UInt8.toNat masked.1
      rw [Nat.min_eq_right part.le, toNat_and_maskByte _ _ part.le] at kept
      have set := toNat_or_firstBit byte prefixLen part kept
      have place : 8 * (rest.length + 1) - prefixLen - 1 = (7 - prefixLen) + 8 * rest.length := by
        omega
      rw [Nat.div_eq_of_lt part, Nat.mod_eq_of_lt part, List.modify_zero_cons, addressValue,
        addressValue, set, List.length_cons, place, pow_add, Nat.add_mul]
      omega
    · have byteIndex : prefixLen / 8 = (prefixLen - 8) / 8 + 1 := by omega
      have bitIndex : prefixLen % 8 = (prefixLen - 8) % 8 := by omega
      have place : 8 * (rest.length + 1) - prefixLen - 1 =
          8 * rest.length - (prefixLen - 8) - 1 := by omega
      have tail := inductionHypothesis (prefixLen - 8) (by omega) masked.2
      rw [byteIndex, bitIndex, List.modify_succ_cons, addressValue, addressValue, tail,
        List.length_modify, List.length_cons, place]
      omega

theorem level_init (address : Bytes) (prefixLen : Nat) (fits : prefixLen ≤ 8 * address.length) :
    (init address prefixLen).level = openBits address.length prefixLen := by
  obtain ⟨size, length, -⟩ := init_spec address prefixLen fits
  rw [level, size, length]

theorem level_eq_succ (range : CidrRange) (inside : range.prefixLen < 8 * range.address.length) :
    range.level = openBits range.address.length (range.prefixLen + 1) + 1 := by
  unfold level size openBits
  omega

theorem half_dvd (range : CidrRange) (inside : range.prefixLen < 8 * range.address.length) :
    2 ^ openBits range.address.length (range.prefixLen + 1) ∣ addressValue range.address := by
  refine (pow_dvd_pow 2 ?_).trans range.aligned
  rw [range.level_eq_succ inside]
  exact Nat.le_succ _

/-- A range that is not a single address splits into the two halves of its block. -/
theorem split_spec (range : CidrRange) (several : range.prefixLen ≠ range.address.length * 8) :
    ∃ left right, range.split = some (left, right) ∧
      left.size = range.size ∧ right.size = range.size ∧
      left.prefixLen = range.prefixLen + 1 ∧ right.prefixLen = range.prefixLen + 1 ∧
      range.level = left.level + 1 ∧ right.level = left.level ∧
      left.point = range.point ∧ right.point = range.point + 2 ^ left.level := by
  have inside : range.prefixLen < 8 * range.address.length := by
    rw [Nat.mul_comm]
    exact lt_of_le_of_ne range.fits several
  have byteIndex : (range.prefixLen + 1 - 1) / 8 = range.prefixLen / 8 := rfl
  have bitIndex : 8 - (range.prefixLen + 1 - range.prefixLen / 8 * 8) = 7 - range.prefixLen % 8 :=
    by omega
  have masked := range.masked
  rw [range.maskOfPrefix] at masked
  have set := addressValue_setBit range.address range.prefixLen inside masked
  unfold split
  rw [if_neg several]
  simp only [byteIndex, bitIndex]
  obtain ⟨leftSize, leftPrefix, leftPoint⟩ := init_spec range.address (range.prefixLen + 1) inside
  obtain ⟨rightSize, rightPrefix, rightPoint⟩ := init_spec
    (range.address.modify (range.prefixLen / 8)
      (· ||| UInt8.ofNat (0x1 <<< (7 - range.prefixLen % 8)))) (range.prefixLen + 1)
    (by rw [List.length_modify]; exact inside)
  rw [List.length_modify] at rightSize rightPoint
  have exponent : 8 * range.address.length - range.prefixLen - 1 =
      openBits range.address.length (range.prefixLen + 1) := by
    unfold openBits
    omega
  have divides := range.half_dvd inside
  have leftLevel := level_init range.address (range.prefixLen + 1) inside
  rw [Nat.div_mul_cancel divides] at leftPoint
  rw [set, exponent, Nat.div_mul_cancel (divides.add dvd_rfl)] at rightPoint
  refine ⟨_, _, rfl, leftSize, rightSize, leftPrefix, rightPrefix, ?_, ?_, leftPoint, ?_⟩
  · rw [leftLevel]
    exact range.level_eq_succ inside
  · rw [leftLevel, level, rightSize, rightPrefix]
  · rw [leftLevel]
    exact rightPoint

end CidrRange

end NativeLibs.Cidr
