import Mathlib
import Metafile.Geometry.Point

/-! Whole numbers as binary64 numbers. A whole number that is not greater than the
significand of the format becomes a number with that significand, so nothing is lost: what
is greater than zero stays so, and is finite. -/

namespace Metafile.WholeNumber

open Float.Model (totalExponent UnpackedFloat)
open Float.Model.Format (binary64 targetExponent mantissaBits minExponent)
open Float.Model.UnpackedFloat

theorem log2_mul_two_pow {m : Nat} (hPos : 0 < m) (k : Nat) :
    (m * 2 ^ k).log2 = m.log2 + k := by
  induction k with
  | zero => rw [Nat.pow_zero, Nat.mul_one, Nat.add_zero]
  | succ k ih =>
      have hScaled : m * 2 ^ k ≠ 0 :=
        Nat.mul_ne_zero (Nat.ne_zero_of_lt hPos) (Nat.ne_zero_of_lt (Nat.two_pow_pos k))
      rw [Nat.pow_succ', Nat.mul_left_comm, Nat.log2_two_mul hScaled, ih, Nat.add_assoc]

/-- Zeros at the end of a significand are shifted out without a trace. -/
theorem shiftRight_zeros (m k : Nat) :
    ExtendedMantissa.ofMantissaAndAccuracy (m * 2 ^ k) .exact >>> k =
      ExtendedMantissa.ofMantissaAndAccuracy m .exact := by
  induction k generalizing m with
  | zero => rw [Nat.pow_zero, Nat.mul_one]; rfl
  | succ k ih =>
      change ExtendedMantissa.shiftRightOne
        (ExtendedMantissa.ofMantissaAndAccuracy (m * 2 ^ (k + 1)) .exact >>> k) = _
      rw [Nat.pow_succ', ← Nat.mul_assoc, ih]
      simp [ExtendedMantissa.shiftRightOne, ExtendedMantissa.ofMantissaAndAccuracy]

/-- The number `m * 2 ^ e` is in the normal form of the format, with an exponent that the
format has room for. -/
structure IsNormal (m : Nat) (e : Int) : Prop where
  log2_eq : m.log2 = 52
  exponent_ge : -1074 ≤ e
  exponent_le : e ≤ 971

namespace IsNormal

variable {m : Nat} {e : Int} (hNormal : IsNormal m e)

include hNormal

theorem pos : 0 < m := by
  rcases Nat.eq_zero_or_pos m with rfl | hPos
  · have hLog := hNormal.log2_eq
    simp at hLog
  · exact hPos

/-- Wherever the point stands in a significand with zeros behind it, the format asks for
the same exponent. -/
theorem targetExponent_eq (k : Nat) :
    binary64.targetExponent (totalExponent (m * 2 ^ k) (e - k)) = e := by
  have hExponent := hNormal.exponent_ge
  rw [totalExponent, log2_mul_two_pow hNormal.pos, hNormal.log2_eq]
  simp only [targetExponent, mantissaBits, minExponent]
  omega

/-- Shifting to the exponent of the format takes the zeros away and nothing else. -/
theorem shiftToTargetExponent_eq (k : Nat) :
    shiftToTargetExponent binary64 (m * 2 ^ k) (e - k) .exact =
      (.ofMantissaAndAccuracy m .exact, e) := by
  have hShift : (e - (e - k)).toNat = k := by omega
  rw [shiftToTargetExponent, hNormal.targetExponent_eq, shiftToExponent, hShift,
    shiftRight_zeros, Int.sub_add_cancel]

/-- Rounding only drops the zeros. -/
theorem roundWithAccuracy_eq (sign : Sign) (k : Nat) :
    roundWithAccuracy binary64 sign (m * 2 ^ k) (e - k) .exact =
      .finite sign m e hNormal.pos := by
  have hRounded : (ExtendedMantissa.ofMantissaAndAccuracy m .exact).roundedMantissa = m := rfl
  have hAgain : shiftToTargetExponent binary64 m e .exact =
      (.ofMantissaAndAccuracy m .exact, e) := by
    simpa using hNormal.shiftToTargetExponent_eq 0
  simp only [roundWithAccuracy, hNormal.shiftToTargetExponent_eq k, hRounded, hAgain]
  exact dif_neg (Nat.ne_zero_of_lt hNormal.pos)

/-- The leading digit of the significand is not stored. -/
theorem mantissa_append : (1#1 ++ BitVec.ofNat 52 m).toNat = m := by
  obtain ⟨hLower, hUpper⟩ :=
    (Nat.log2_eq_iff (Nat.ne_zero_of_lt hNormal.pos)).1 hNormal.log2_eq
  have hRest : (BitVec.ofNat 52 m).toNat = m - 2 ^ 52 := by
    rw [BitVec.toNat_ofNat]
    omega
  rw [BitVec.toNat_append, hRest, Nat.shiftLeft_eq, Nat.or_comm]
  change (m - 2 ^ 52) ||| 2 ^ 52 = m
  rw [Nat.or_two_pow_eq_add_of_lt (by omega)]
  omega

/-- A number in normal form is packed with its exponent in the field for it and with the rest of
its digits behind. -/
theorem pack_eq (sign : Sign) :
    pack binary64 (.finite sign m e hNormal.pos) =
      packComponents binary64 sign (BitVec.ofNat 11 (e + 1075).toNat)
        (BitVec.ofNat 52 m) := by
  have hExponent := hNormal.exponent_le
  have hBiased : (e + binary64.exponentBias + (52 : Nat)).toNat = (e + 1075).toNat := by
    change (e + 1023 + 52).toNat = _
    omega
  simp only [pack, hBiased]
  rw [if_neg (by omega), if_pos (by rw [hNormal.log2_eq]; rfl)]

/-- It is found again when it is unpacked. Neither field can be mistaken for one of the special
values. -/
theorem unpack_pack (sign : Sign) :
    unpack binary64 (pack binary64 (.finite sign m e hNormal.pos)) =
      .finite sign m e hNormal.pos := by
  have hLower := hNormal.exponent_ge
  have hUpper := hNormal.exponent_le
  have hField : (BitVec.ofNat 11 (e + 1075).toNat).toNat = (e + 1075).toNat := by
    rw [BitVec.toNat_ofNat]
    omega
  have hInfinite : BitVec.ofNat 11 (e + 1075).toNat ≠ -1#11 := by
    intro hEq
    rw [hEq] at hField
    change 2047 = _ at hField
    omega
  have hSubnormal : BitVec.ofNat 11 (e + 1075).toNat ≠ 0#11 := by
    intro hEq
    rw [hEq] at hField
    change 0 = _ at hField
    omega
  rw [hNormal.pack_eq]
  simp only [unpack, unpackExponent_packComponents, unpackMantissa_packComponents,
    unpackSign_packComponents, Sign.ofBitVec_toBitVec]
  rw [if_neg hInfinite, if_neg hSubnormal]
  simp only [hField, hNormal.mantissa_append]
  congr 1
  change _ - (1023 + 52 : Int) = e
  omega

end IsNormal

/-- The significand and the exponent of a whole number. -/
theorem isNormal {n : Nat} (hPos : 0 < n) (hLess : n < 2 ^ 53) :
    IsNormal (n * 2 ^ (52 - n.log2)) (n.log2 - 52) := by
  have hLog : n.log2 < 53 := (Nat.log2_lt (Nat.ne_zero_of_lt hPos)).2 hLess
  refine ⟨?_, by omega, by omega⟩
  rw [log2_mul_two_pow hPos]
  omega

/-- A whole number with at most as many digits as the significand is only brought into normal
form. -/
theorem round_eq {n : Nat} (hPos : 0 < n) (hLess : n < 2 ^ 53) :
    UnpackedFloat.round binary64 .positive n 0 =
      .finite .positive (n * 2 ^ (52 - n.log2)) (n.log2 - 52) (isNormal hPos hLess).pos := by
  have hLog : n.log2 < 53 := (Nat.log2_lt (Nat.ne_zero_of_lt hPos)).2 hLess
  have hTarget : binary64.targetExponent (totalExponent n 0) = n.log2 - 52 := by
    simp only [targetExponent, totalExponent, mantissaBits, minExponent]
    omega
  have hShift : (0 - ((n.log2 : Int) - 52)).toNat = 52 - n.log2 := by omega
  have hExponent : (0 : Int) - (52 - n.log2 : Nat) = n.log2 - 52 := by omega
  have hRound := (isNormal hPos hLess).roundWithAccuracy_eq .positive 0
  rw [Nat.pow_zero, Nat.mul_one, Int.natCast_zero, Int.sub_zero] at hRound
  simp only [UnpackedFloat.round, hTarget, decreaseExponent, hShift, hExponent, Nat.shiftLeft_eq]
  exact hRound

/-- Words become numbers by rounding them. -/
theorem unpack_toFloat {n : Nat} (hPos : 0 < n) (hLess : n < 2 ^ 53) :
    n.toUInt64.toFloat.toModel.unpack =
      .finite .positive (n * 2 ^ (52 - n.log2)) (n.log2 - 52) (isNormal hPos hLess).pos := by
  have hWord : n.toUInt64.toNat = n := by
    rw [UInt64.toNat_ofNat']
    omega
  have hSign : compare (n : Int) 0 = .gt := Int.compare_eq_gt.2 (Int.natCast_pos.2 hPos)
  have hRounded : ofUInt64 binary64 n.toUInt64 = UnpackedFloat.round binary64 .positive n 0 := by
    simp only [ofUInt64, UnpackedFloat.ofNat, UnpackedFloat.ofInt, UnpackedFloat.normalize,
      hWord, hSign, Int.toNat_natCast]
  change unpack binary64 (pack binary64 (ofUInt64 binary64 n.toUInt64)) = _
  rw [hRounded, round_eq hPos hLess, (isNormal hPos hLess).unpack_pack]

/-- A whole number is written as a word times a power of ten, which is one here. -/
theorem ofNat_eq {n : Nat} (hLess : n < 2 ^ 53) : Float.ofNat n = n.toUInt64.toFloat * 1 :=
  dif_pos ⟨hLess, Nat.zero_le _⟩

theorem unpack_one :
    (1 : Float).toModel.unpack = .finite .positive (2 ^ 52) (-52) (Nat.two_pow_pos 52) := rfl

variable {n : Nat} (hPos : 0 < n) (hLess : n < 2 ^ 53)

include hPos hLess

/-- A whole number is stored in normal form, with its own digits. -/
theorem unpack_ofNat :
    (Float.ofNat n).toModel.unpack =
      .finite .positive (n * 2 ^ (52 - n.log2)) (n.log2 - 52) (isNormal hPos hLess).pos := by
  have hNormal := isNormal hPos hLess
  -- The factor one puts zeros behind the significand, and rounding drops them again.
  have hProduct : UnpackedFloat.mul binary64 n.toUInt64.toFloat.toModel.unpack
      (1 : Float).toModel.unpack =
        .finite .positive (n * 2 ^ (52 - n.log2)) (n.log2 - 52) hNormal.pos := by
    rw [unpack_toFloat hPos hLess, unpack_one]
    exact hNormal.roundWithAccuracy_eq .positive 52
  rw [ofNat_eq hLess]
  change unpack binary64 (pack binary64 (UnpackedFloat.mul _ _ _)) = _
  rw [hProduct, hNormal.unpack_pack]

theorem isFinite_ofNat : (Float.ofNat n).isFinite := by
  change (Float.ofNat n).toModel.unpack.isFinite
  rw [unpack_ofNat hPos hLess]
  rfl

theorem ofNat_pos : 0 < Float.ofNat n := by
  apply decide_eq_true
  change (0 : Float).toModel.unpack.lt (Float.ofNat n).toModel.unpack = true
  rw [unpack_ofNat hPos hLess]
  rfl

end Metafile.WholeNumber

/-- Something can be drawn on a surface with sides of a whole number of pixels. -/
theorem Metafile.Size.isDrawable_ofInt {width height : Nat} (hWidth : 0 < width)
    (hWidthLess : width < 2 ^ 53) (hHeight : 0 < height) (hHeightLess : height < 2 ^ 53) :
    (⟨Float.ofInt width, Float.ofInt height⟩ : Size Float).isDrawable := by
  simp [Size.isDrawable, Float.ofInt, WholeNumber.isFinite_ofNat hWidth hWidthLess,
    WholeNumber.isFinite_ofNat hHeight hHeightLess, WholeNumber.ofNat_pos hWidth hWidthLess,
    WholeNumber.ofNat_pos hHeight hHeightLess]
