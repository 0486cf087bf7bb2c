import Mathlib.Algebra.Order.Field.Basic
import Mathlib.Algebra.Order.Ring.Rat
import Mathlib.Tactic.Ring
import Metafile.Geometry.CoordinateMap

/-! Lengths on the surface in exact numbers. Main statement: lengths are scaled like horizontal
distances, except under a window that has a width but no height. Such a window leaves points where
they are and scales lengths all the same. -/

namespace Metafile

/-- The magnitude of a scalar, written with a comparison, is the absolute value where numbers are
exact. -/
theorem Scalar.abs_rat (q : ℚ) : Scalar.abs q = |q| := by
  show (if q < 0 then -q else q) = |q|
  split
  case isTrue hNegative => exact (abs_of_neg hNegative).symm
  case isFalse hNegative => exact (abs_of_nonneg (not_lt.1 hNegative)).symm

theorem MapMode.unitScale_nonneg {mode : MapMode} {scale : ℚ}
    (hScale : (mode.unitScale : Option ℚ) = some scale) : 0 ≤ scale := by
  cases mode with
  | loMetric | hiMetric | loEnglish | hiEnglish | twips =>
      obtain rfl := Option.some.inj hScale
      decide +kernel
  | _ => cases hScale

namespace CoordinateMap

variable (m : CoordinateMap)

/-- The extents decide where points go, and the window has a width but no height. -/
def IsFlat : Prop :=
  (m.mode.unitScale : Option ℚ) = none ∧ m.windowExtent.width ≠ 0 ∧ m.windowExtent.height = 0

/-- The width of the viewport in widths of the window. -/
def widthRatio : ℚ := m.viewportExtent.width / m.windowExtent.width

/-- What horizontal distances are multiplied by. It is negative if the drawing is mirrored. -/
def distanceFactor : ℚ :=
  match (m.mode.unitScale : Option ℚ) with
  | some scale => scale
  | none =>
    if m.windowExtent.width = 0 ∨ m.windowExtent.height = 0 then 1 else m.widthRatio

/-- What lengths are multiplied by. -/
def lengthFactor : ℚ :=
  match (m.mode.unitScale : Option ℚ) with
  | some scale => scale
  | none => if m.windowExtent.width = 0 then 1 else |m.widthRatio|

/-- Horizontal distances are multiplied by one factor all over the surface. The origins cancel. -/
theorem apply_sub_apply (x y d : ℚ) :
    (m.apply ⟨x + d, y⟩).x - (m.apply ⟨x, y⟩).x = d * m.distanceFactor := by
  unfold apply distanceFactor
  cases (m.mode.unitScale : Option ℚ) with
  | some scale =>
      show (x + d - m.windowOrigin.x) * scale - (x - m.windowOrigin.x) * scale = d * scale
      ring
  | none =>
      dsimp only
      split
      case isTrue => ring
      case isFalse =>
        show (x + d - m.windowOrigin.x) * m.widthRatio + m.viewportOrigin.x -
          ((x - m.windowOrigin.x) * m.widthRatio + m.viewportOrigin.x) = d * m.widthRatio
        ring

/-- Lengths are multiplied by a factor of their own. -/
theorem scaleLength_eq (d : ℚ) : m.scaleLength d = d * m.lengthFactor := by
  unfold scaleLength lengthFactor
  cases (m.mode.unitScale : Option ℚ) with
  | some scale => rfl
  | none =>
      dsimp only
      split
      case isTrue => exact (mul_one d).symm
      case isFalse =>
        show d * Scalar.abs m.widthRatio = d * |m.widthRatio|
        rw [Scalar.abs_rat]

variable {m}

/-- Under a flat window points stay where they are. -/
theorem IsFlat.distanceFactor_eq (hFlat : m.IsFlat) : m.distanceFactor = 1 := by
  obtain ⟨hMode, -, hHeight⟩ := hFlat
  rw [distanceFactor, hMode]
  exact if_pos (.inr hHeight)

/-- But lengths are scaled as if the window had a height. -/
theorem IsFlat.lengthFactor_eq (hFlat : m.IsFlat) : m.lengthFactor = |m.widthRatio| := by
  obtain ⟨hMode, hWidth, -⟩ := hFlat
  rw [lengthFactor, hMode]
  exact if_neg hWidth

/-- Under any other window both factors are the same, up to the sign of a mirrored drawing. -/
theorem abs_distanceFactor (hFlat : ¬m.IsFlat) : |m.distanceFactor| = m.lengthFactor := by
  unfold distanceFactor lengthFactor
  cases hMode : (m.mode.unitScale : Option ℚ) with
  | some scale => exact abs_of_nonneg (MapMode.unitScale_nonneg hMode)
  | none =>
      dsimp only
      by_cases hWidth : m.windowExtent.width = 0
      · rw [if_pos (.inl hWidth), if_pos hWidth, abs_one]
      · have hHeight : m.windowExtent.height ≠ 0 := fun hHeight => hFlat ⟨hMode, hWidth, hHeight⟩
        rw [if_neg (not_or.2 ⟨hWidth, hHeight⟩), if_neg hWidth]

/-- The scale is one just if viewport and window are of the same width. -/
theorem IsFlat.abs_widthRatio_eq_one_iff (hFlat : m.IsFlat) :
    |m.widthRatio| = 1 ↔ |m.viewportExtent.width| = |m.windowExtent.width| := by
  have hWidth : (m.windowExtent.width : ℚ) ≠ 0 := Int.cast_ne_zero.2 hFlat.2.1
  rw [widthRatio, abs_div, div_eq_one_iff_eq (abs_ne_zero.2 hWidth)]
  exact_mod_cast Iff.rfl

/-- A length is scaled like a horizontal distance just if the window is not flat, the length is zero
or viewport and window are of the same width. Under a flat window points keep their distances. -/
theorem scaleLength_eq_distance_iff (m : CoordinateMap) (x y : ℚ) {d : ℚ} (hLength : 0 ≤ d) :
    let distance := |(m.apply ⟨x + d, y⟩).x - (m.apply ⟨x, y⟩).x|
    (m.scaleLength d = distance ↔
      (m.IsFlat → d = 0 ∨ |m.viewportExtent.width| = |m.windowExtent.width|)) ∧
    (m.IsFlat → distance = d ∧
      m.scaleLength d = d * |(m.viewportExtent.width : ℚ) / m.windowExtent.width|) := by
  intro distance
  have hDistance : distance = d * |m.distanceFactor| := by
    rw [show distance = |d * m.distanceFactor| from congrArg abs (m.apply_sub_apply x y d),
      abs_mul, abs_of_nonneg hLength]
  rw [hDistance, m.scaleLength_eq]
  by_cases hFlat : m.IsFlat
  · rw [hFlat.distanceFactor_eq, hFlat.lengthFactor_eq, abs_one, mul_one,
      ← hFlat.abs_widthRatio_eq_one_iff]
    refine ⟨⟨fun hSame _ => ?_, fun hCases => ?_⟩, fun _ => ⟨rfl, rfl⟩⟩
    · rcases eq_or_ne d 0 with hZero | hZero
      · exact .inl hZero
      · exact .inr (mul_right_eq_self₀.1 hSame |>.resolve_right hZero)
    · rcases hCases hFlat with rfl | hRatio
      · rw [zero_mul]
      · rw [hRatio, mul_one]
  · rw [abs_distanceFactor hFlat]
    exact ⟨⟨fun _ hNot => absurd hNot hFlat, fun _ => rfl⟩, fun hNot => absurd hNot hFlat⟩

/-- A window that runs against the axes and is not flat. -/
theorem scaleLength_eq_distance_iff_mirrored :
    let m : CoordinateMap := ⟨.text, ⟨5, 5⟩, ⟨-100, 50⟩, ⟨0, 0⟩, ⟨200, 200⟩⟩
    m.scaleLength (10 : ℚ) = |(m.apply ⟨3 + 10, 7⟩).x - (m.apply ⟨(3 : ℚ), 7⟩).x| := by
  intro m
  refine (m.scaleLength_eq_distance_iff 3 7 (by decide)).1.2 fun hFlat => ?_
  exact absurd hFlat.2.2 (by decide)

/-- A viewport that is twice as wide as a window without height keeps points apart as they are and
doubles lengths. -/
theorem scaleLength_flatWindow :
    let m := [Change.windowExtent ⟨100, 0⟩, .viewportExtent ⟨200, 200⟩].foldl change initial
    let distance := |(m.apply ⟨0 + 10, 0⟩).x - (m.apply ⟨(0 : ℚ), 0⟩).x|
    m.scaleLength 10 = (20 : ℚ) ∧ distance = 10 ∧ m.scaleLength 10 ≠ distance := by
  decide +kernel

end CoordinateMap

end Metafile
