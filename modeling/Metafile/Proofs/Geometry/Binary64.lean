import Metafile.Proofs.Geometry.Rounding
import Metafile.Proofs.Machine.Word

/-! Floats and the numbers that they stand for. Fractions of powers of two with few digits are
held without rounding, and arithmetic on them is exact as long as its results are such
fractions too. -/

namespace Metafile.Binary64

open Float.Model (totalExponent UnpackedFloat)
open Float.Model.Format (binary64)
open Float.Model.UnpackedFloat

/-- What lies between two finite floats is finite. Neither an infinity nor what is not a number
can stand there. -/
theorem isFinite_unpacked_of_le_of_le {f g h : UnpackedFloat} (hFirst : f.isFinite)
    (hLast : h.isFinite) (hLower : f.le g = true) (hUpper : g.le h = true) : g.isFinite := by
  cases g with
  | zero | finite => rfl
  | notANumber => cases h <;> cases hUpper
  | infinity sign =>
      cases sign with
      | positive =>
          cases h with
          | infinity | notANumber => cases hLast
          | zero | finite => cases hUpper
      | negative =>
          cases f with
          | infinity | notANumber => cases hFirst
          | zero => cases hLower
          | finite other => cases other <;> cases hLower

/-- The number that a finite float stands for. -/
def value (x : Float) : ℚ := number x.toModel.unpack

/-- The float stands for a number, without rounding. -/
structure Holds (x : Float) (q : ℚ) : Prop where
  isFinite : x.isFinite
  value_eq : value x = q

/-- Finite floats are stored with a significand and an exponent of the format. -/
theorem stored_of_isFinite {x : Float} (hFinite : x.isFinite) : Stored x.toModel.unpack :=
  stored_unpack _ hFinite

theorem isFinite_of_stored {x : Float} (hStored : Stored x.toModel.unpack) : x.isFinite := by
  change x.toModel.unpack.isFinite
  cases hUnpacked : x.toModel.unpack with
  | zero | finite => rfl
  | infinity | notANumber =>
      rw [hUnpacked] at hStored
      cases hStored

/-- Numbers of finite floats are numbers of the format. -/
theorem representable_number {f : UnpackedFloat} (hStored : Stored f) :
    Representable (number f) := by
  cases f with
  | infinity sign | notANumber => cases hStored
  | zero sign => exact ⟨0, -1074, ⟨by decide, .inl rfl, by decide, by decide⟩, by simp [number]⟩
  | finite sign m e hPos =>
      refine ⟨m, e, hStored, ?_⟩
      have hScale : (0 : ℚ) ≤ 2 ^ e := zpow_nonneg zero_le_two e
      cases sign <;> simp [number, Sign.apply, abs_mul, abs_of_nonneg hScale]

/-- Every number of the format is a whole number of the least one above zero. -/
theorem exists_number_eq {f : UnpackedFloat} (hStored : Stored f) :
    ∃ n : ℤ, number f = n * 2 ^ (-1074 : ℤ) := by
  cases f with
  | infinity sign | notANumber => cases hStored
  | zero sign => exact ⟨0, by rw [Int.cast_zero, zero_mul]; rfl⟩
  | finite sign m e hPos =>
      have hStored' : IsStored m e := hStored
      obtain ⟨k, rfl⟩ := Int.le.dest hStored'.exponent_ge
      refine ⟨sign.apply m * 2 ^ k, ?_⟩
      show ((sign.apply m : ℤ) : ℚ) * 2 ^ ((-1074 : ℤ) + k) = _
      rw [zpow_add₀ two_ne_zero, zpow_natCast, Int.cast_mul, Int.cast_pow, Int.cast_ofNat,
        mul_assoc, mul_comm (2 ^ k : ℚ)]

/-- A difference keeps its sign when it is rounded. -/
theorem Rounds.nonneg_iff {f g h : UnpackedFloat} (hFirst : Stored f) (hSecond : Stored g)
    (hRounds : Rounds (number f - number g) h) : 0 ≤ number h ↔ number g ≤ number f := by
  constructor
  · contrapose!
    intro hLess
    obtain ⟨m, hFirst⟩ := exists_number_eq hFirst
    obtain ⟨n, hSecond⟩ := exists_number_eq hSecond
    have hUnit : (0 : ℚ) < 2 ^ (-1074 : ℤ) := zpow_pos two_pos _
    have hLeast : Representable (-2 ^ (-1074 : ℤ)) := by
      refine ⟨1, -1074, ⟨by decide, .inl rfl, by decide, by decide⟩, ?_⟩
      rw [abs_neg, abs_of_pos hUnit, Nat.cast_one, one_mul]
    have hWhole : m + 1 ≤ n := by
      rw [hFirst, hSecond, mul_lt_mul_iff_left₀ hUnit, Int.cast_lt] at hLess
      exact hLess
    have hApart : number f - number g ≤ -2 ^ (-1074 : ℤ) := by
      have hUnits : ((m + 1 : ℤ) : ℚ) * 2 ^ (-1074 : ℤ) ≤ n * 2 ^ (-1074 : ℤ) := by gcongr
      rw [Int.cast_add, Int.cast_one, add_one_mul] at hUnits
      rw [hFirst, hSecond, sub_le_iff_le_add, neg_add_eq_sub, le_sub_iff_add_le]
      exact hUnits
    exact (hRounds.le_of_le _ hLeast hApart).trans_lt (neg_neg_of_pos hUnit)
  · intro hLess
    exact hRounds.ge_of_ge 0 (representable_number (f := .zero .positive) trivial)
      (sub_nonneg.2 hLess)

/-- A number that the format has room for is its own rounding, so the float holds it. -/
theorem Rounds.holds {x : Float} {q : ℚ} (hRounds : Rounds q x.toModel.unpack)
    (hExact : Representable q) : Holds x q :=
  ⟨isFinite_of_stored hRounds.stored, hRounds.number_eq hExact⟩

/-- What an exact result is rounded to, if it does not overflow. -/
theorem Rounds.holds_value {x : Float} {q : ℚ} (hRounds : Rounds q x.toModel.unpack) :
    Holds x (value x) :=
  ⟨isFinite_of_stored hRounds.stored, rfl⟩

theorem Holds.representable {x : Float} {q : ℚ} (hHolds : Holds x q) : Representable q := by
  rw [← hHolds.value_eq]
  exact representable_number (stored_of_isFinite hHolds.isFinite)

theorem le_iff_model {x y : Float} : x ≤ y ↔ x.toModel.unpack.le y.toModel.unpack = true :=
  decide_eq_true_iff

/-- Finite floats are ordered as the numbers that they hold. -/
theorem value_le_iff {x y : Float} (hFirst : x.isFinite) (hSecond : y.isFinite) :
    x ≤ y ↔ value x ≤ value y :=
  le_iff_model.trans (le_iff (stored_of_isFinite hFirst) (stored_of_isFinite hSecond))

/-- What lies between finite floats is finite. -/
theorem isFinite_of_le_of_le {x y z : Float} (hFirst : x.isFinite) (hLast : z.isFinite)
    (hLower : x ≤ y) (hUpper : y ≤ z) : y.isFinite :=
  isFinite_unpacked_of_le_of_le hFirst hLast (le_iff_model.1 hLower) (le_iff_model.1 hUpper)

section

variable {x y : Float} (hFirst : x.isFinite) (hSecond : y.isFinite)

include hFirst hSecond

/-- Sums, differences and products of floats are the exact ones, rounded once. -/
theorem rounds_float_add (hRange : InRange (value x + value y)) :
    Rounds (value x + value y) (x + y).toModel.unpack := by
  have hRounds := rounds_add (stored_of_isFinite hFirst) (stored_of_isFinite hSecond) hRange
  change Rounds _ (unpack binary64 (pack binary64 (add binary64 _ _)))
  rwa [unpack_pack hRounds.stored]

theorem rounds_float_sub (hRange : InRange (value x - value y)) :
    Rounds (value x - value y) (x - y).toModel.unpack := by
  have hRounds := rounds_sub (stored_of_isFinite hFirst) (stored_of_isFinite hSecond) hRange
  change Rounds _ (unpack binary64 (pack binary64 (sub binary64 _ _)))
  rwa [unpack_pack hRounds.stored]

theorem rounds_float_mul (hRange : InRange (value x * value y)) :
    Rounds (value x * value y) (x * y).toModel.unpack := by
  have hRounds := rounds_mul (stored_of_isFinite hFirst) (stored_of_isFinite hSecond) hRange
  change Rounds _ (unpack binary64 (pack binary64 (mul binary64 _ _)))
  rwa [unpack_pack hRounds.stored]

end

namespace Holds

variable {x y : Float} {p q : ℚ} (hFirst : Holds x p) (hSecond : Holds y q)

include hFirst hSecond

theorem add (hExact : Representable (p + q)) : Holds (x + y) (p + q) := by
  obtain ⟨hFinite, rfl⟩ := hFirst
  obtain ⟨hFinite', rfl⟩ := hSecond
  exact (rounds_float_add hFinite hFinite' hExact.inRange).holds hExact

theorem sub (hExact : Representable (p - q)) : Holds (x - y) (p - q) := by
  obtain ⟨hFinite, rfl⟩ := hFirst
  obtain ⟨hFinite', rfl⟩ := hSecond
  exact (rounds_float_sub hFinite hFinite' hExact.inRange).holds hExact

theorem mul (hExact : Representable (p * q)) : Holds (x * y) (p * q) := by
  obtain ⟨hFinite, rfl⟩ := hFirst
  obtain ⟨hFinite', rfl⟩ := hSecond
  exact (rounds_float_mul hFinite hFinite' hExact.inRange).holds hExact

theorem le_iff : x ≤ y ↔ p ≤ q := by
  rw [value_le_iff hFirst.isFinite hSecond.isFinite, hFirst.value_eq, hSecond.value_eq]

end Holds

/-- Fractions of a power of two whose numerators have no more digits than a significand are
numbers of the format. -/
theorem representable_div_two_pow {n : Int} {k : Nat} (hDigits : n.natAbs < 2 ^ 53)
    (hPlaces : k ≤ 1000) : Representable (n / 2 ^ k) := by
  have hMagnitude : |(n / 2 ^ k : ℚ)| = n.natAbs * 2 ^ (-(k : ℤ)) := by
    rw [abs_div, abs_of_pos (show (0 : ℚ) < 2 ^ k by positivity), zpow_neg, zpow_natCast,
      Nat.cast_natAbs, Int.cast_abs, div_eq_mul_inv]
  rcases Nat.eq_zero_or_pos n.natAbs with hZero | hPos
  · refine ⟨0, -1074, ⟨by decide, .inl rfl, by decide, by decide⟩, ?_⟩
    rw [hMagnitude, hZero, Nat.cast_zero, zero_mul, zero_mul]
  · have hNormal := WholeNumber.isNormal hPos hDigits
    have hLog : n.natAbs.log2 < 53 := (Nat.log2_lt (Nat.ne_of_gt hPos)).2 hDigits
    obtain ⟨hLower, hUpper⟩ := (Nat.log2_eq_iff (Nat.ne_of_gt hNormal.pos)).1 hNormal.log2_eq
    refine ⟨_, n.natAbs.log2 - 52 - k, ⟨hUpper, .inr hLower, by omega, by omega⟩, ?_⟩
    have hShift : -(k : ℤ) = (n.natAbs.log2 - 52 - k : ℤ) + (52 - n.natAbs.log2 : Nat) := by omega
    rw [hMagnitude, hShift, mul_zpow_add]

/-- Whole numbers are held as long as they fit into the significand. -/
theorem holds_ofNat {n : Nat} (hDigits : n < 2 ^ 53) : Holds (Float.ofNat n) n := by
  rcases Nat.eq_zero_or_pos n with rfl | hPos
  · exact ⟨rfl, by rw [Nat.cast_zero]; rfl⟩
  · refine ⟨WholeNumber.isFinite_ofNat hPos hDigits, ?_⟩
    have hLog : n.log2 < 53 := (Nat.log2_lt (Nat.ne_of_gt hPos)).2 hDigits
    rw [value, WholeNumber.unpack_ofNat hPos hDigits]
    show ((n * 2 ^ (52 - n.log2) : Nat) : ℚ) * 2 ^ ((n.log2 : ℤ) - 52) = n
    have hNone : (n.log2 : ℤ) - 52 + (52 - n.log2 : Nat) = 0 := by omega
    rw [← mul_zpow_add, hNone, zpow_zero, mul_one]

/-- A float of the other sign holds the number of the other sign. -/
theorem Holds.neg {x : Float} {q : ℚ} (hHolds : Holds x q) : Holds (-x) (-q) := by
  have hStored := stored_of_isFinite hHolds.isFinite
  have hUnpacked : (-x).toModel.unpack = x.toModel.unpack.neg :=
    unpack_pack ((stored_neg _).2 hStored)
  refine ⟨isFinite_of_stored ?_, ?_⟩
  · rw [hUnpacked]
    exact (stored_neg _).2 hStored
  · rw [value, hUnpacked, number_neg, ← value, hHolds.value_eq]

/-- Whole numbers of up to 53 digits are not rounded. -/
theorem holds_ofInt {n : Int} (hDigits : n.natAbs < 2 ^ 53) : Holds (Float.ofInt n) n := by
  cases n with
  | ofNat n => exact holds_ofNat hDigits
  | negSucc n =>
      rw [Int.cast_negSucc]
      exact (holds_ofNat hDigits).neg

/-- The float holds a fraction whose numerator is not above the bound. -/
def IsFraction (x : Float) (places bound : Nat) (q : ℚ) : Prop :=
  ∃ n : ℤ, n.natAbs ≤ bound ∧ q = n / 2 ^ places ∧ Holds x q

section

variable {x y : Float} {p q : ℚ} {j k M N : Nat}

/-- A whole number is a fraction without binary places. -/
theorem isFraction_ofInt {n : ℤ} (hBound : n.natAbs ≤ M) (hDigits : M < 2 ^ 53) :
    IsFraction (Float.ofInt n) 0 M n :=
  ⟨n, hBound, by rw [pow_zero, div_one], holds_ofInt (by omega)⟩

/-- Binary places add up in a product, and the bounds of the numerators are multiplied. -/
theorem IsFraction.mul (hFirst : IsFraction x j M p) (hSecond : IsFraction y k N q)
    (hFits : M * N < 2 ^ 53 ∧ j + k ≤ 1000) :
    IsFraction (x * y) (j + k) (M * N) (p * q) := by
  obtain ⟨m, hm, rfl, hx⟩ := hFirst
  obtain ⟨n, hn, rfl, hy⟩ := hSecond
  have hBound : (m * n).natAbs ≤ M * N := by
    rw [Int.natAbs_mul]
    exact Nat.mul_le_mul hm hn
  have hProduct : (m / 2 ^ j * (n / 2 ^ k) : ℚ) = (m * n : ℤ) / 2 ^ (j + k) := by
    rw [div_mul_div_comm, pow_add, Int.cast_mul]
  refine ⟨m * n, hBound, hProduct, hx.mul hy ?_⟩
  rw [hProduct]
  exact representable_div_two_pow (Nat.lt_of_le_of_lt hBound hFits.1) hFits.2

/-- A sum has as many binary places as both of its parts, and the bounds of the numerators add
up. -/
theorem IsFraction.add (hFirst : IsFraction x k M p) (hSecond : IsFraction y k N q)
    (hFits : M + N < 2 ^ 53 ∧ k ≤ 1000) : IsFraction (x + y) k (M + N) (p + q) := by
  obtain ⟨m, hm, rfl, hx⟩ := hFirst
  obtain ⟨n, hn, rfl, hy⟩ := hSecond
  have hBound : (m + n).natAbs ≤ M + N := (Int.natAbs_add_le m n).trans (Nat.add_le_add hm hn)
  have hSum : (m / 2 ^ k + n / 2 ^ k : ℚ) = (m + n : ℤ) / 2 ^ k := by
    rw [← add_div, Int.cast_add]
  refine ⟨m + n, hBound, hSum, hx.add hy ?_⟩
  rw [hSum]
  exact representable_div_two_pow (Nat.lt_of_le_of_lt hBound hFits.1) hFits.2

end

theorem holds_zero : Holds 0 0 := ⟨rfl, rfl⟩

theorem holds_one : Holds 1 1 := by
  have hOne : Holds 1 (1 : Nat) := holds_ofNat (by decide)
  rwa [Nat.cast_one] at hOne

/-- The identity map, computed in floats, leaves a held number alone. -/
theorem Holds.mul_one_add_zero {x : Float} {q : ℚ} (hHolds : Holds x q) :
    Holds (x * 1 + 0) q := by
  have hExact := hHolds.representable
  have hScaled := hHolds.mul holds_one (by rwa [mul_one])
  have hShifted := hScaled.add holds_zero (by rwa [mul_one, add_zero])
  rwa [mul_one, add_zero] at hShifted

theorem holds_isHalf {n : Int} (hHalf : Machine.IsHalf n) : Holds (Float.ofInt n) n := by
  obtain ⟨hLower, hUpper⟩ := hHalf
  exact holds_ofInt (by omega)

end Metafile.Binary64
