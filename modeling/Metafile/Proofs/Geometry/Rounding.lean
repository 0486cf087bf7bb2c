import Mathlib
import Metafile.Proofs.Geometry.WholeNumber

/-! Rounding to binary64. A number is rounded to one that is next to it, with no number of the
format between the two. So what the format has room for is not rounded at all, and rounding
never passes a number of the format. Sums, differences and products are the exact ones,
rounded once, and finite floats are ordered like the numbers that they stand for. -/

namespace Metafile.Binary64

open Float.Model (totalExponent UnpackedFloat)
open Float.Model.Format (binary64 targetExponent mantissaBits minExponent)
open Float.Model.UnpackedFloat

/-- How the format holds a number `m * 2 ^ e`. The significand has all of its digits unless
the exponent is the least one. -/
structure IsStored (m : Nat) (e : Int) : Prop where
  significand_lt : m < 2 ^ 53
  full : e = -1074 ∨ 2 ^ 52 ≤ m
  exponent_ge : -1074 ≤ e
  exponent_le : e ≤ 971

/-- The float is finite and as the format holds it. -/
def Stored : UnpackedFloat → Prop
  | .zero _ => True
  | .finite _ m e _ => IsStored m e
  | _ => False

/-- The number that a finite float stands for. -/
def number : UnpackedFloat → ℚ
  | .finite sign m e _ => (sign.apply m : ℤ) * 2 ^ e
  | _ => 0

theorem number_finite_neg (sign : Sign) (m : Nat) (e : Int) (hPos : 0 < m) :
    number (.finite (-sign) m e hPos) = -number (.finite sign m e hPos) := by
  cases sign with
  | positive =>
      show ((-m : ℤ) : ℚ) * 2 ^ e = -((m : ℤ) * 2 ^ e)
      push_cast
      ring
  | negative =>
      show ((m : ℤ) : ℚ) * 2 ^ e = -((-m : ℤ) * 2 ^ e)
      push_cast
      ring

/-- Floats of opposite signs stand for opposite numbers, zeros among them. -/
@[simp]
theorem number_neg (f : UnpackedFloat) : number f.neg = -number f := by
  cases f with
  | finite sign m e hPos => exact number_finite_neg sign m e hPos
  | _ => exact neg_zero.symm

@[simp]
theorem stored_neg (f : UnpackedFloat) : Stored f.neg ↔ Stored f := by
  cases f <;> rfl

/-- With all of its digits a stored number is in normal form. -/
theorem IsStored.isNormal {m : Nat} {e : Int} (hStored : IsStored m e) (hFull : 2 ^ 52 ≤ m) :
    WholeNumber.IsNormal m e where
  log2_eq := (Nat.log2_eq_iff (by omega)).2 ⟨hFull, hStored.significand_lt⟩
  exponent_ge := hStored.exponent_ge
  exponent_le := hStored.exponent_le

/-- A number with the least exponent is packed without a leading digit and found again. Its field
of the exponent is zero. -/
theorem unpack_pack_subnormal (sign : Sign) {m : Nat} (hPos : 0 < m) (hLess : m < 2 ^ 52) :
    unpack binary64 (pack binary64 (.finite sign m (-1074) hPos)) =
      .finite sign m (-1074) hPos := by
  have hLog : m.log2 < 52 := (Nat.log2_lt (Nat.ne_of_gt hPos)).2 hLess
  have hDigits : (BitVec.ofNat 52 m).toNat = m := by
    rw [BitVec.toNat_ofNat]
    omega
  have hNonzero : BitVec.ofNat 52 m ≠ 0#52 := by
    intro hZero
    rw [hZero] at hDigits
    change 0 = m at hDigits
    omega
  have hPacked : pack binary64 (.finite sign m (-1074) hPos) =
      packComponents binary64 sign 0#11 (BitVec.ofNat 52 m) := by
    simp only [pack]
    rw [if_neg (by decide), if_neg (by simp only [mantissaBits]; omega)]
  rw [hPacked]
  simp only [unpack, unpackExponent_packComponents, unpackMantissa_packComponents,
    unpackSign_packComponents, Sign.ofBitVec_toBitVec]
  rw [if_neg (by decide), if_pos trivial, dif_neg hNonzero]
  simp only [hDigits]
  rfl

/-- What is packed is found again. -/
theorem unpack_pack {f : UnpackedFloat} (hStored : Stored f) :
    unpack binary64 (pack binary64 f) = f := by
  cases f with
  | zero sign => exact unpack_packedZero
  | infinity sign | notANumber => cases hStored
  | finite sign m e hPos =>
      have hStored' : IsStored m e := hStored
      by_cases hFull : 2 ^ 52 ≤ m
      · exact (hStored'.isNormal hFull).unpack_pack sign
      · obtain rfl := hStored'.full.resolve_right hFull
        exact unpack_pack_subnormal sign hPos (Nat.not_le.1 hFull)

/-- A finite float is held by the format: the two kinds of fields of the exponent that are not
special give the two cases of how a significand is stored. -/
theorem stored_unpack (bits : BitVec binary64.numBits)
    (hFinite : (unpack binary64 bits).isFinite) : Stored (unpack binary64 bits) := by
  revert hFinite
  fun_cases unpack binary64 bits with
  | case1 | case2 => intro hFinite; cases hFinite
  | case3 => exact fun _ => trivial
  | case4 mantissa exponent e sign s hInfinite hSubnormal hNonzero =>
      intro _
      have hLess : mantissa.toNat < 2 ^ 52 := mantissa.isLt
      have hExponent : e + 1 = -1074 := by
        simp only [e, hSubnormal]
        rfl
      show IsStored mantissa.toNat (e + 1)
      rw [hExponent]
      exact ⟨by omega, .inl rfl, by decide, by decide⟩
  | case5 mantissa exponent e sign s hInfinite hNormal =>
      intro _
      have hPositive : exponent.toNat ≠ 0 := fun hZero => hNormal (BitVec.eq_of_toNat_eq hZero)
      have hLess : exponent.toNat ≠ 2047 := fun hLast => hInfinite (BitVec.eq_of_toNat_eq hLast)
      have hRange : exponent.toNat < 2048 := exponent.isLt
      have hDigits : mantissa.toNat < 2 ^ 52 := mantissa.isLt
      have hWhole : (1#1 ++ mantissa).toNat = 2 ^ 52 + mantissa.toNat := by
        rw [BitVec.toNat_append, Nat.shiftLeft_eq]
        exact (Nat.two_pow_add_eq_or_of_lt hDigits 1).symm
      have hExponent : e = exponent.toNat - 1075 := rfl
      show IsStored (1#1 ++ mantissa).toNat e
      rw [hWhole]
      exact ⟨by omega, .inr (Nat.le_add_right ..), by omega, by omega⟩

/-- With a larger exponent a number is a whole number of smaller units. -/
theorem mul_zpow_add (m : Nat) (e : Int) (k : Nat) :
    (m : ℚ) * 2 ^ (e + k) = (m * 2 ^ k : Nat) * 2 ^ e := by
  rw [zpow_add₀ two_ne_zero, zpow_natCast]
  push_cast
  ring

/-- With the same exponent numbers are ordered as their significands. -/
theorem mul_zpow_le_mul_zpow_iff (m n : Nat) (e : Int) :
    (m : ℚ) * 2 ^ e ≤ n * 2 ^ e ↔ m ≤ n := by
  rw [mul_le_mul_iff_left₀ (zpow_pos two_pos e), Nat.cast_le]

/-- A whole number next to the quotient of `m` and `2 ^ k`: no whole number is between them. -/
def IsNext (m k r : Nat) : Prop := ∀ n, (n * 2 ^ k ≤ m → n ≤ r) ∧ (m ≤ n * 2 ^ k → r ≤ n)

/-- Shifts drop digits. The bits that are kept aside decide only how to round. -/
theorem mantissa_shiftRight (em : ExtendedMantissa) (k : Nat) :
    (em >>> k).mantissa = em.mantissa / 2 ^ k := by
  induction k with
  | zero => exact (Nat.div_one _).symm
  | succ k ih =>
      change (em >>> k).mantissa / 2 = _
      rw [ih, Nat.div_div_eq_div_mul, Nat.pow_succ]

/-- Rounding adds one at most to what is left of the significand. -/
theorem mantissa_le_roundedMantissa (em : ExtendedMantissa) :
    em.mantissa ≤ em.roundedMantissa ∧ em.roundedMantissa ≤ em.mantissa + 1 := by
  obtain ⟨mantissa, roundBit, stickyBit⟩ := em
  cases roundBit <;> cases stickyBit <;>
    simp [ExtendedMantissa.roundedMantissa, ExtendedMantissa.accuracy,
      Accuracy.roundToNearestEven]
  omega

/-- So the rounded significand is next to the exact quotient, whichever digits are dropped. -/
theorem isNext_roundedMantissa (m k : Nat) :
    IsNext m k (ExtendedMantissa.ofMantissaAndAccuracy m .exact >>> k).roundedMantissa := by
  intro n
  have hScale := Nat.two_pow_pos k
  obtain ⟨hLower, hUpper⟩ := mantissa_le_roundedMantissa
    (ExtendedMantissa.ofMantissaAndAccuracy m .exact >>> k)
  rw [mantissa_shiftRight] at hLower hUpper
  change m / 2 ^ k ≤ _ at hLower
  change _ ≤ m / 2 ^ k + 1 at hUpper
  refine ⟨fun hBelow => ((Nat.le_div_iff_mul_le hScale).2 hBelow).trans hLower, fun hAbove => ?_⟩
  by_cases hDivides : 2 ^ k ∣ m
  · obtain ⟨quotient, rfl⟩ := hDivides
    rw [Nat.mul_comm, WholeNumber.shiftRight_zeros]
    rw [Nat.mul_comm] at hAbove
    exact Nat.le_of_mul_le_mul_right hAbove hScale
  · have hStrict : m < n * 2 ^ k := by
      refine Nat.lt_of_le_of_ne hAbove fun hEq => hDivides ?_
      rw [hEq]
      exact Nat.dvd_mul_left ..
    exact hUpper.trans ((Nat.div_lt_iff_lt_mul hScale).2 hStrict)

/-- The format drops `k` binary digits of a number `m * 2 ^ e`. -/
structure Drops (m : Nat) (e : Int) (k : Nat) : Prop where
  exponent_ge : -1074 ≤ e + k
  lt : m < 2 ^ 53 * 2 ^ k
  full : e + k = -1074 ∨ 2 ^ 52 * 2 ^ k ≤ m

/-- The exponent to be reached says how many digits are dropped: as few as leave a significand
with room in the format. -/
theorem drops_of_targetExponent {m : Nat} {e : Int} {k : Nat} (hPos : 0 < m)
    (hTarget : binary64.targetExponent (totalExponent m e) = e + k) : Drops m e k := by
  have hNonzero : m ≠ 0 := Nat.ne_of_gt hPos
  simp only [targetExponent, totalExponent, mantissaBits, minExponent] at hTarget
  refine ⟨by omega, ?_, ?_⟩
  · rw [← Nat.pow_add, ← Nat.log2_lt hNonzero]
    omega
  · by_cases hLeast : e + k = -1074
    · exact .inl hLeast
    · refine .inr ?_
      rw [← Nat.pow_add, ← Nat.le_log2 hNonzero]
      omega

/-- The number is one that the format has room for. -/
def Representable (q : ℚ) : Prop := ∃ m e, IsStored m e ∧ |q| = m * 2 ^ e

theorem Representable.neg {q : ℚ} (hStored : Representable q) : Representable (-q) := by
  simpa [Representable] using hStored

/-- Numbers below a power of two have smaller exponents. -/
theorem IsStored.lt_of_exponent_lt {m : Nat} {e bound : Int} (hStored : IsStored m e)
    (hLess : e < bound) : (m : ℚ) * 2 ^ e < 2 ^ 52 * 2 ^ bound := by
  have hDigits : (m : ℚ) < 2 ^ 53 := by exact_mod_cast hStored.significand_lt
  calc (m : ℚ) * 2 ^ e
    _ < 2 ^ 53 * 2 ^ e := by gcongr
    _ = 2 ^ 52 * 2 ^ (e + 1) := by
        rw [zpow_add_one₀ two_ne_zero]
        ring
    _ ≤ 2 ^ 52 * 2 ^ bound := by
        gcongr
        · exact one_le_two
        · omega

/-- A number with all digits is not less than one with a smaller exponent. -/
theorem IsStored.exponent_ge_of_le {m n : Nat} {e bound : Int} (hStored : IsStored m e)
    (hFull : 2 ^ 52 ≤ n) (hLess : (n : ℚ) * 2 ^ bound ≤ m * 2 ^ e) : bound ≤ e := by
  by_contra hExponent
  have hDigits : (2 ^ 52 : ℚ) ≤ n := by exact_mod_cast hFull
  have hAbove : (2 ^ 52 : ℚ) * 2 ^ bound ≤ n * 2 ^ bound := by gcongr
  exact absurd (hAbove.trans hLess) (not_le.2 (hStored.lt_of_exponent_lt (not_le.1 hExponent)))

section

variable {m k r n : Nat} {e d : Int} (hDrops : Drops m e k) (hNext : IsNext m k r)

include hDrops hNext

/-- Rounding up gives one digit too many at most, in a single case. -/
theorem IsNext.le_carry : r ≤ 2 ^ 53 := (hNext _).2 hDrops.lt.le

/-- And the significand keeps all of its digits unless the exponent is the least one. -/
theorem IsNext.full : e + k = -1074 ∨ 2 ^ 52 ≤ r := hDrops.full.imp_right (hNext _).1

/-- Rounding does not pass a number of the format above. -/
theorem IsNext.le_of_le (hStored : IsStored n d) (hAbove : (m : ℚ) * 2 ^ e ≤ n * 2 ^ d) :
    (r : ℚ) * 2 ^ (e + k) ≤ n * 2 ^ d := by
  have hExponent : e + k ≤ d := by
    rcases hDrops.full with hLeast | hFull
    · exact hLeast.trans_le hStored.exponent_ge
    · refine hStored.exponent_ge_of_le (le_refl (2 ^ 52)) (le_trans ?_ hAbove)
      rwa [mul_zpow_add, mul_zpow_le_mul_zpow_iff]
  obtain ⟨j, rfl⟩ := Int.le.dest hExponent
  rw [mul_zpow_add n, mul_zpow_le_mul_zpow_iff]
  rw [mul_zpow_add n, mul_zpow_add, mul_zpow_le_mul_zpow_iff] at hAbove
  exact (hNext _).2 hAbove

/-- Rounding does not pass a number of the format below. -/
theorem IsNext.ge_of_ge (hStored : IsStored n d) (hBelow : (n : ℚ) * 2 ^ d ≤ m * 2 ^ e) :
    (n : ℚ) * 2 ^ d ≤ r * 2 ^ (e + k) := by
  by_cases hExponent : e + k ≤ d
  · obtain ⟨j, rfl⟩ := Int.le.dest hExponent
    rw [mul_zpow_add n, mul_zpow_le_mul_zpow_iff]
    rw [mul_zpow_add n, mul_zpow_add, mul_zpow_le_mul_zpow_iff] at hBelow
    exact (hNext _).1 hBelow
  · have hLeast := hStored.exponent_ge
    have hFull : 2 ^ 52 ≤ r := (hNext.full hDrops).resolve_left (by omega)
    have hDigits : (2 ^ 52 : ℚ) ≤ r := by exact_mod_cast hFull
    exact (hStored.lt_of_exponent_lt (not_le.1 hExponent)).le.trans (by gcongr)

end

/-- The float is next to a number: the format has no number between them. -/
structure Rounds (q : ℚ) (f : UnpackedFloat) : Prop where
  stored : Stored f
  le_of_le : ∀ b, Representable b → q ≤ b → number f ≤ b
  ge_of_ge : ∀ b, Representable b → b ≤ q → b ≤ number f

/-- A number of the format is rounded to itself, as no float but this one is next to it. -/
theorem Rounds.number_eq {q : ℚ} {f : UnpackedFloat} (hRounds : Rounds q f)
    (hExact : Representable q) : number f = q :=
  le_antisymm (hRounds.le_of_le q hExact le_rfl) (hRounds.ge_of_ge q hExact le_rfl)

theorem Rounds.neg {q : ℚ} {f : UnpackedFloat} (hRounds : Rounds q f) : Rounds (-q) f.neg where
  stored := (stored_neg f).2 hRounds.stored
  le_of_le b hExact hAbove := by
    have hBelow := hRounds.ge_of_ge (-b) hExact.neg (neg_le.1 hAbove)
    rw [number_neg]
    exact neg_le.1 hBelow
  ge_of_ge b hExact hBelow := by
    have hAbove := hRounds.le_of_le (-b) hExact.neg (le_neg.1 hBelow)
    rw [number_neg]
    exact le_neg.1 hAbove

/-- A number of the format is rounded to itself. -/
theorem rounds_self {f : UnpackedFloat} (hStored : Stored f) : Rounds (number f) f :=
  ⟨hStored, fun _ _ => id, fun _ _ => id⟩

theorem rounds_zero (sign : Sign) : Rounds 0 (.zero sign) :=
  rounds_self (show Stored (.zero sign) from trivial)

/-- A significand with room in the format is not shifted again. -/
theorem shiftToTargetExponent_of_lt {r : Nat} {e : Int} (hDigits : r < 2 ^ 53)
    (hLeast : -1074 ≤ e) :
    shiftToTargetExponent binary64 r e .exact = (.ofMantissaAndAccuracy r .exact, e) := by
  have hLog : r.log2 < 53 := by
    rcases Nat.eq_zero_or_pos r with rfl | hPos
    · decide
    · exact (Nat.log2_lt (Nat.ne_of_gt hPos)).2 hDigits
  have hNone : (binary64.targetExponent (totalExponent r e) - e).toNat = 0 := by
    simp only [targetExponent, totalExponent, mantissaBits, minExponent]
    omega
  simp only [shiftToTargetExponent, shiftToExponent, hNone, Int.natCast_zero, Int.add_zero]
  rfl

/-- A significand that is rounded up to one digit too many loses it again. -/
theorem shiftToTargetExponent_carry {e : Int} (hLeast : -1074 ≤ e) :
    shiftToTargetExponent binary64 (2 ^ 53) e .exact =
      (.ofMantissaAndAccuracy (2 ^ 52) .exact, e + 1) := by
  have hOne : (binary64.targetExponent (totalExponent (2 ^ 53) e) - e).toNat = 1 := by
    simp only [targetExponent, totalExponent, Nat.log2_two_pow, mantissaBits, minExponent]
    omega
  simp only [shiftToTargetExponent, shiftToExponent, hOne]
  rfl

/-- A number is rounded in two shifts. The second one only undoes a carry. -/
theorem roundWithAccuracy_eq {sign : Sign} {m n : Nat} {e d t : Int} {em : ExtendedMantissa}
    (hFirst : shiftToTargetExponent binary64 m e .exact = (em, t))
    (hSecond : shiftToTargetExponent binary64 em.roundedMantissa t .exact =
      (.ofMantissaAndAccuracy n .exact, d)) :
    roundWithAccuracy binary64 sign m e .exact =
      if hZero : n = 0 then .zero sign else .finite sign n d (Nat.pos_of_ne_zero hZero) := by
  simp only [roundWithAccuracy, hFirst, hSecond]
  rfl

/-- The significand of a rounded number is the whole number next to the quotient that is left
when digits are dropped, with one digit less after a carry. -/
theorem exists_roundWithAccuracy {m k : Nat} {e : Int} (hPos : 0 < m)
    (hTarget : binary64.targetExponent (totalExponent m e) = e + k) (sign : Sign) :
    ∃ (r n : Nat) (d : Int), IsNext m k r ∧ (n : ℚ) * 2 ^ d = r * 2 ^ (e + k) ∧
      n < 2 ^ 53 ∧ -1074 ≤ d ∧ (d = -1074 ∨ 2 ^ 52 ≤ n) ∧
      roundWithAccuracy binary64 sign m e .exact =
        if hZero : n = 0 then .zero sign else .finite sign n d (Nat.pos_of_ne_zero hZero) := by
  have hDrops := drops_of_targetExponent hPos hTarget
  have hNext := isNext_roundedMantissa m k
  have hShift : (e + k - e).toNat = k := by omega
  have hFirst : shiftToTargetExponent binary64 m e .exact =
      (ExtendedMantissa.ofMantissaAndAccuracy m .exact >>> k, e + k) := by
    simp only [shiftToTargetExponent, hTarget, shiftToExponent, hShift]
  rcases Nat.lt_or_eq_of_le (hNext.le_carry hDrops) with hDigits | hCarry
  · exact ⟨_, _, e + k, hNext, rfl, hDigits, hDrops.exponent_ge, hNext.full hDrops,
      roundWithAccuracy_eq hFirst (shiftToTargetExponent_of_lt hDigits hDrops.exponent_ge)⟩
  · have hSecond := shiftToTargetExponent_carry hDrops.exponent_ge
    rw [← hCarry] at hSecond
    refine ⟨_, 2 ^ 52, e + k + 1, hNext, ?_, by decide, ?_, .inr le_rfl,
      roundWithAccuracy_eq hFirst hSecond⟩
    · rw [hCarry, zpow_add_one₀ two_ne_zero]
      push_cast
      ring
    · have hLeast := hDrops.exponent_ge
      omega

/-- A positive number that is not too large is rounded to one next to it. -/
theorem rounds_roundWithAccuracy {m k : Nat} {e : Int} (hPos : 0 < m)
    (hTarget : binary64.targetExponent (totalExponent m e) = e + k) {bound : ℚ}
    (hBound : Representable bound) (hRange : (m : ℚ) * 2 ^ e ≤ bound) :
    Rounds (m * 2 ^ e) (roundWithAccuracy binary64 .positive m e .exact) := by
  have hDrops := drops_of_targetExponent hPos hTarget
  obtain ⟨r, n, d, hNext, hNumber, hDigits, hLeast, hFull, hRound⟩ :=
    exists_roundWithAccuracy hPos hTarget .positive
  have hResult : number (roundWithAccuracy binary64 .positive m e .exact) = r * 2 ^ (e + k) := by
    rw [hRound, ← hNumber]
    split
    case isTrue hZero => simp [hZero, number]
    case isFalse => rfl
  have hPositive : (0 : ℚ) ≤ m * 2 ^ e := by positivity
  refine ⟨?_, ?_, ?_⟩
  · rw [hRound]
    split
    case isTrue => trivial
    case isFalse =>
      refine ⟨hDigits, hFull, hLeast, ?_⟩
      rcases hFull with rfl | hFull
      · decide
      · obtain ⟨l, c, hStored, hMagnitude⟩ := hBound
        have hAbove : (m : ℚ) * 2 ^ e ≤ l * 2 ^ c := hMagnitude ▸ hRange.trans (le_abs_self bound)
        have hBelow := hNext.le_of_le hDrops hStored hAbove
        rw [← hNumber] at hBelow
        exact (hStored.exponent_ge_of_le hFull hBelow).trans hStored.exponent_le
  · rintro b ⟨l, c, hStored, hMagnitude⟩ hAbove
    rw [abs_of_nonneg (hPositive.trans hAbove)] at hMagnitude
    rw [hResult, hMagnitude]
    exact hNext.le_of_le hDrops hStored (hMagnitude ▸ hAbove)
  · rintro b ⟨l, c, hStored, hMagnitude⟩ hBelow
    rw [hResult]
    rcases le_total b 0 with hNegative | hNonneg
    · exact hNegative.trans (by positivity)
    · rw [abs_of_nonneg hNonneg] at hMagnitude
      rw [hMagnitude]
      exact hNext.ge_of_ge hDrops hStored (hMagnitude ▸ hBelow)

/-- Only the magnitude is rounded. The sign is put before it, so that rounding does not favour a
sign. -/
theorem roundWithAccuracy_neg (sign : Sign) (m : Nat) (e : Int) :
    roundWithAccuracy binary64 (-sign) m e .exact =
      (roundWithAccuracy binary64 sign m e .exact).neg := by
  simp only [roundWithAccuracy]
  split <;> rfl

/-- Numbers are rounded wherever their point stands. -/
theorem rounds_round {m : Nat} {e : Int} (hPos : 0 < m) {bound : ℚ}
    (hBound : Representable bound) (hRange : (m : ℚ) * 2 ^ e ≤ bound) :
    Rounds (m * 2 ^ e) (UnpackedFloat.round binary64 .positive m e) := by
  generalize hTarget : binary64.targetExponent (totalExponent m e) = target
  simp only [UnpackedFloat.round, hTarget, decreaseExponent, Nat.shiftLeft_eq]
  generalize hShift : (e - target).toNat = j
  -- Zeros behind the significand change neither the number nor the exponent to be reached.
  have hSame : (m : ℚ) * 2 ^ e = (m * 2 ^ j : Nat) * 2 ^ (e - j) := by
    rw [← mul_zpow_add, sub_add_cancel]
  have hTotal : totalExponent (m * 2 ^ j) (e - j) = totalExponent m e := by
    rw [totalExponent, totalExponent, WholeNumber.log2_mul_two_pow hPos]
    omega
  have hReached : binary64.targetExponent (totalExponent (m * 2 ^ j) (e - j)) =
      e - j + (target - (e - j)).toNat := by
    rw [hTotal, hTarget]
    omega
  rw [hSame] at hRange ⊢
  exact rounds_roundWithAccuracy (Nat.mul_pos hPos (Nat.two_pow_pos j)) hReached hBound hRange

/-- Signed numbers are rounded by their magnitude, with the sign put back, and zero stays
zero. -/
theorem rounds_normalize {m e : Int} {bound : ℚ} (hBound : Representable bound)
    (hRange : |(m : ℚ) * 2 ^ e| ≤ bound) :
    Rounds (m * 2 ^ e) (UnpackedFloat.normalize binary64 m e .positive) := by
  unfold UnpackedFloat.normalize
  rcases lt_trichotomy m 0 with hNegative | rfl | hPositive
  · obtain ⟨n, rfl⟩ : ∃ n : Nat, m = -n := ⟨m.natAbs, by omega⟩
    have hOrder : compare (-(n : ℤ)) 0 = .lt := Int.compare_eq_lt.2 hNegative
    have hMirror : UnpackedFloat.round binary64 .negative n e =
        (UnpackedFloat.round binary64 .positive n e).neg := roundWithAccuracy_neg .positive _ _
    push_cast at hRange ⊢
    rw [neg_mul, abs_neg] at hRange
    simp only [hOrder, neg_neg, Int.toNat_natCast, hMirror, neg_mul]
    exact (rounds_round (by omega) hBound ((le_abs_self _).trans hRange)).neg
  · rw [Int.cast_zero, zero_mul]
    exact rounds_zero .positive
  · obtain ⟨n, rfl⟩ := Int.eq_ofNat_of_zero_le hPositive.le
    have hOrder : compare (n : ℤ) 0 = .gt := Int.compare_eq_gt.2 hPositive
    simp only [hOrder, Int.toNat_natCast]
    exact rounds_round (by omega) hBound ((le_abs_self _).trans hRange)

/-- The number does not overflow when it is rounded. -/
def InRange (q : ℚ) : Prop := ∃ bound, Representable bound ∧ |q| ≤ bound

theorem Representable.inRange {q : ℚ} (hExact : Representable q) : InRange q := by
  refine ⟨|q|, ?_, le_rfl⟩
  rwa [Representable, abs_abs]

/-- A number of either sign is rounded to one next to it if it does not overflow. -/
theorem rounds_signed {m k : Nat} {e : Int} (sign : Sign) (hPos : 0 < m)
    (hTarget : binary64.targetExponent (totalExponent m e) = e + k)
    (hRange : InRange ((sign.apply m : ℤ) * 2 ^ e)) :
    Rounds ((sign.apply m : ℤ) * 2 ^ e) (roundWithAccuracy binary64 sign m e .exact) := by
  obtain ⟨bound, hBound, hBelow⟩ := hRange
  cases sign with
  | positive => exact rounds_roundWithAccuracy hPos hTarget hBound ((le_abs_self _).trans hBelow)
  | negative =>
      have hSign : ((Sign.negative.apply m : ℤ) : ℚ) * 2 ^ e = -(m * 2 ^ e) := by
        simp [Sign.apply]
      rw [hSign, abs_neg] at hBelow
      rw [hSign]
      have hMirror := roundWithAccuracy_neg .positive m e
      change roundWithAccuracy binary64 .negative m e .exact = _ at hMirror
      rw [hMirror]
      exact (rounds_roundWithAccuracy hPos hTarget hBound ((le_abs_self _).trans hBelow)).neg

/-- Zeros behind the significand do not change a number. -/
theorem signed_shift (sign : Sign) (m k : Nat) (e : Int) :
    ((sign.apply (m <<< k : Nat) : ℤ) : ℚ) * 2 ^ (e - k) = (sign.apply m : ℤ) * 2 ^ e := by
  have hShift : (m : ℚ) * 2 ^ e = (m * 2 ^ k : Nat) * 2 ^ (e - k) := by
    rw [← mul_zpow_add, sub_add_cancel]
  rw [Nat.shiftLeft_eq]
  cases sign with
  | positive => exact hShift.symm
  | negative =>
      simp only [Sign.apply, Int.cast_neg, Int.cast_natCast, neg_mul, hShift]

theorem apply_mul_apply (first second : Sign) (m n : Nat) :
    first.apply m * second.apply n = (first * second).apply (m * n : Nat) := by
  cases first <;> cases second <;> simp [Sign.apply]

section

variable {f g : UnpackedFloat} (hFirst : Stored f) (hSecond : Stored g)

include hFirst hSecond

/-- A sum is computed without loss and rounded once. The two numbers are brought to the smaller
exponent first, which only puts zeros behind a significand. -/
theorem rounds_add (hRange : InRange (number f + number g)) :
    Rounds (number f + number g) (add binary64 f g) := by
  cases f with
  | infinity sign | notANumber => cases hFirst
  | zero sign =>
      cases g with
      | infinity sign | notANumber => cases hSecond
      | zero other =>
          have hNone : number (.zero sign) + number (.zero other) = 0 := add_zero 0
          rw [hNone, add]
          split <;> exact rounds_zero _
      | finite other n d hPos =>
          have hSame : number (.zero sign) + number (.finite other n d hPos) = _ := zero_add _
          rw [hSame]
          exact rounds_self hSecond
  | finite sign m e hPos =>
      cases g with
      | infinity sign | notANumber => cases hSecond
      | zero other =>
          have hSame : number (.finite sign m e hPos) + number (.zero other) = _ := add_zero _
          rw [hSame]
          exact rounds_self hFirst
      | finite other n d hPos' =>
          have hSum : number (.finite sign m e hPos) + number (.finite other n d hPos') =
              (sign.apply (m <<< (e - min e d).toNat : Nat) +
                other.apply (n <<< (d - min e d).toNat : Nat) : ℤ) * 2 ^ min e d := by
            have hFirstShift := signed_shift sign m (e - min e d).toNat e
            have hSecondShift := signed_shift other n (d - min e d).toNat d
            rw [show e - (e - min e d).toNat = min e d by omega] at hFirstShift
            rw [show d - (d - min e d).toNat = min e d by omega] at hSecondShift
            rw [Int.cast_add, add_mul, hFirstShift, hSecondShift]
            rfl
          obtain ⟨bound, hBound, hBelow⟩ := hRange
          rw [hSum] at hBelow ⊢
          exact rounds_normalize hBound hBelow

end

/-- Subtracting is adding the opposite, for infinities as well. -/
theorem sub_eq_add_opposite (f g : UnpackedFloat) : sub binary64 f g = add binary64 f g.neg := by
  cases f with
  | finite sign m e hPos =>
      cases g with
      | finite other n d hPos' =>
          have hSign (k l : Nat) :
              sign.apply k - other.apply l = sign.apply k + (-other).apply l := by
            cases other with
            | positive => exact Int.sub_eq_add_neg
            | negative => exact Int.sub_neg ..
          show UnpackedFloat.normalize binary64 (sign.apply _ - other.apply _) _ .positive =
            UnpackedFloat.normalize binary64 (sign.apply _ + (-other).apply _) _ .positive
          rw [hSign]
      | _ => rfl
  | _ => cases g <;> rfl

theorem rounds_sub {f g : UnpackedFloat} (hFirst : Stored f) (hSecond : Stored g)
    (hRange : InRange (number f - number g)) :
    Rounds (number f - number g) (sub binary64 f g) := by
  rw [sub_eq_add_opposite, sub_eq_add_neg, ← number_neg]
  refine rounds_add hFirst ((stored_neg g).2 hSecond) ?_
  rwa [number_neg, ← sub_eq_add_neg]

/-- A product has all digits unless both factors are as small as can be. -/
theorem IsStored.le_targetExponent_mul {m n : Nat} {e d : Int} (hFirst : IsStored m e)
    (hSecond : IsStored n d) (hPos : 0 < m) (hPos' : 0 < n) :
    e + d ≤ binary64.targetExponent (totalExponent (m * n) (e + d)) := by
  have hNonzero : m * n ≠ 0 := Nat.ne_of_gt (Nat.mul_pos hPos hPos')
  simp only [targetExponent, totalExponent, mantissaBits, minExponent]
  by_cases hFull : 2 ^ 52 ≤ m ∨ 2 ^ 52 ≤ n
  · have hProduct : 2 ^ 52 ≤ m * n := by
      rcases hFull with hFull | hFull
      · exact hFull.trans (Nat.le_mul_of_pos_right m hPos')
      · exact hFull.trans (Nat.le_mul_of_pos_left n hPos)
    have hLog : 52 ≤ (m * n).log2 := (Nat.le_log2 hNonzero).2 hProduct
    omega
  · obtain ⟨hShort, hShort'⟩ := not_or.1 hFull
    have hLeast := hFirst.full.resolve_right hShort
    have hLeast' := hSecond.full.resolve_right hShort'
    omega

/-- And so is a product. The significands are multiplied and the exponents added. -/
theorem rounds_mul {f g : UnpackedFloat} (hFirst : Stored f) (hSecond : Stored g)
    (hRange : InRange (number f * number g)) :
    Rounds (number f * number g) (mul binary64 f g) := by
  cases f with
  | infinity sign | notANumber => cases hFirst
  | zero sign =>
      have hNone : number (.zero sign) * number g = 0 := zero_mul _
      rw [hNone]
      cases g with
      | infinity sign | notANumber => cases hSecond
      | zero other | finite other n d hPos => exact rounds_zero _
  | finite sign m e hPos =>
      cases g with
      | infinity sign | notANumber => cases hSecond
      | zero other =>
          have hNone : number (.finite sign m e hPos) * number (.zero other) = 0 := mul_zero _
          rw [hNone]
          exact rounds_zero _
      | finite other n d hPos' =>
          have hFirst' : IsStored m e := hFirst
          have hSecond' : IsStored n d := hSecond
          have hProduct : number (.finite sign m e hPos) * number (.finite other n d hPos') =
              ((sign * other).apply (m * n : Nat) : ℤ) * 2 ^ (e + d) := by
            show ((sign.apply m : ℤ) * 2 ^ e : ℚ) * ((other.apply n : ℤ) * 2 ^ d) = _
            rw [← apply_mul_apply, zpow_add₀ two_ne_zero]
            push_cast
            ring
          have hTarget : binary64.targetExponent (totalExponent (m * n) (e + d)) = e + d +
              (binary64.targetExponent (totalExponent (m * n) (e + d)) - (e + d)).toNat := by
            have hReached : e + d ≤ binary64.targetExponent (totalExponent (m * n) (e + d)) :=
              hFirst'.le_targetExponent_mul hSecond' hPos hPos'
            omega
          rw [hProduct] at hRange ⊢
          exact rounds_signed _ (Nat.mul_pos hPos hPos') hTarget hRange

/-- Stored numbers are compared by their exponents first, which is right since the significands
have all of their digits. -/
theorem IsStored.compare_isLE_iff {m n : Nat} {e d : Int} (hFirst : IsStored m e)
    (hSecond : IsStored n d) :
    ((compare e d).then (compare m n)).isLE ↔ (m : ℚ) * 2 ^ e ≤ n * 2 ^ d := by
  rcases lt_trichotomy e d with hLess | rfl | hGreater
  · have hFull : 2 ^ 52 ≤ n := by
      have hLeast := hFirst.exponent_ge
      exact hSecond.full.resolve_left (by omega)
    have hDigits : (2 ^ 52 : ℚ) ≤ n := by exact_mod_cast hFull
    have hBelow : (m : ℚ) * 2 ^ e ≤ n * 2 ^ d :=
      (hFirst.lt_of_exponent_lt hLess).le.trans (by gcongr)
    simp [Int.compare_eq_lt.2 hLess, hBelow]
  · have hScale : (0 : ℚ) < 2 ^ e := zpow_pos two_pos e
    rw [mul_le_mul_iff_left₀ hScale, Nat.cast_le, Int.compare_eq_eq.2 rfl]
    exact Nat.isLE_compare
  · have hFull : 2 ^ 52 ≤ m := by
      have hLeast := hSecond.exponent_ge
      exact hFirst.full.resolve_left (by omega)
    have hAbove : ¬(m : ℚ) * 2 ^ e ≤ n * 2 ^ d := fun hLess =>
      absurd (hSecond.exponent_ge_of_le hFull hLess) (not_le.2 hGreater)
    simp [Int.compare_eq_gt.2 hGreater, hAbove]

theorem number_negative (m : Nat) (e : Int) (hPos : 0 < m) :
    number (.finite .negative m e hPos) = -(m * 2 ^ e) := number_finite_neg .positive m e hPos

/-- Finite floats are ordered like the numbers that they stand for. -/
theorem le_iff {f g : UnpackedFloat} (hFirst : Stored f) (hSecond : Stored g) :
    f.le g = true ↔ number f ≤ number g := by
  have hPositive {m : Nat} (e : Int) (hPos : 0 < m) : (0 : ℚ) < m * 2 ^ e := by positivity
  have hZero (sign : Sign) : number (.zero sign) = 0 := rfl
  cases f with
  | infinity sign | notANumber => cases hFirst
  | zero sign =>
      rw [hZero]
      cases g with
      | infinity sign | notANumber => cases hSecond
      | zero other => exact iff_of_true rfl le_rfl
      | finite other n d hPos =>
          cases other with
          | positive => exact iff_of_true rfl (hPositive d hPos).le
          | negative =>
              rw [number_negative]
              exact iff_of_false Bool.false_ne_true (not_le.2 (neg_neg_of_pos (hPositive d hPos)))
  | finite sign m e hPos =>
      have hFirst' : IsStored m e := hFirst
      cases g with
      | infinity sign | notANumber => cases hSecond
      | zero other =>
          rw [hZero]
          cases sign with
          | positive => exact iff_of_false Bool.false_ne_true (not_le.2 (hPositive e hPos))
          | negative =>
              rw [number_negative]
              exact iff_of_true rfl (neg_neg_of_pos (hPositive e hPos)).le
      | finite other n d hPos' =>
          have hSecond' : IsStored n d := hSecond
          cases sign with
          | positive =>
              cases other with
              | positive => exact hFirst'.compare_isLE_iff hSecond'
              | negative =>
                  rw [number_negative]
                  have hBelow := (neg_neg_of_pos (hPositive d hPos')).trans (hPositive e hPos)
                  exact iff_of_false Bool.false_ne_true (not_le.2 hBelow)
          | negative =>
              rw [number_negative]
              cases other with
              | positive =>
                  have hBelow := (neg_neg_of_pos (hPositive e hPos)).trans (hPositive d hPos')
                  exact iff_of_true rfl hBelow.le
              | negative =>
                  rw [number_negative, neg_le_neg_iff, ← hSecond'.compare_isLE_iff hFirst',
                    ← Int.compare_swap, ← Nat.compare_swap, ← Ordering.swap_then]
                  rfl

end Metafile.Binary64
