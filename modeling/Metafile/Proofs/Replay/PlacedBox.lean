import Mathlib.Order.Interval.Set.UnorderedInterval
import Metafile.Proofs.Gdi.Dialect
import Metafile.Proofs.Geometry.Binary64
import Metafile.Proofs.Machine.Fits

/-! Where the bounding box of a placeable header lands. The surface is as large as the box,
whichever way round its edges are stored, but the box is moved by its stored left and top edges.
Main statement: a point of the box lands on the surface just if it is not left of the stored left
edge nor above the stored top edge. The whole box lands there just if these are the lesser ones. -/

namespace Metafile

open Binary64
open Machine (IsHalf)
open Set (uIcc)

/-- The number is on the stretch between two whole numbers, which may come in any order. -/
def Between (a b : Int) (x : Float) : Prop :=
  Float.ofInt (min a b) ≤ x ∧ x ≤ Float.ofInt (max a b)

/-- The point is in the rectangle or on its edges, however these are stored. -/
def Rect.Encloses (r : Rect) (p : Point Float) : Prop :=
  Between r.left r.right p.x ∧ Between r.top r.bottom p.y

/-- The point is on a surface of this size. -/
def Size.Encloses (s : Size Float) (p : Point Float) : Prop :=
  (0 ≤ p.x ∧ p.x ≤ s.width) ∧ 0 ≤ p.y ∧ p.y ≤ s.height

instance (a b : Int) (x : Float) : Decidable (Between a b x) :=
  inferInstanceAs (Decidable (_ ∧ _))

instance (r : Rect) (p : Point Float) : Decidable (r.Encloses p) :=
  inferInstanceAs (Decidable (_ ∧ _))

instance (s : Size Float) (p : Point Float) : Decidable (s.Encloses p) :=
  inferInstanceAs (Decidable ((_ ∧ _) ∧ _))

/-- Nothing is below the first end of a stretch whose ends come in order. -/
theorem le_of_between {a b : Int} {x : Float} (hOrder : a ≤ b) (hBetween : Between a b x) :
    Float.ofInt a ≤ x := by
  have hLower := hBetween.1
  rwa [min_eq_left hOrder] at hLower

section

variable {a b : Int} (hFirst : IsHalf a) (hSecond : IsHalf b)

include hFirst hSecond

theorem ofInt_le_ofInt_iff : Float.ofInt a ≤ Float.ofInt b ↔ a ≤ b :=
  ((holds_isHalf hFirst).le_iff (holds_isHalf hSecond)).trans Int.cast_le

theorem isHalf_min : IsHalf (min a b) := by
  rcases min_choice a b with hMin | hMin <;> rw [hMin] <;> assumption

theorem isHalf_max : IsHalf (max a b) := by
  rcases max_choice a b with hMax | hMax <;> rw [hMax] <;> assumption

/-- Floats between two half words are finite and lie between their numbers. -/
theorem Between.mem_uIcc {x : Float} (hBetween : Between a b x) :
    x.isFinite ∧ value x ∈ uIcc (a : ℚ) b := by
  obtain ⟨hLower, hUpper⟩ := hBetween
  have hMin := holds_isHalf (isHalf_min hFirst hSecond)
  have hMax := holds_isHalf (isHalf_max hFirst hSecond)
  have hFinite := isFinite_of_le_of_le hMin.isFinite hMax.isFinite hLower hUpper
  have hSelf : Holds x (value x) := ⟨hFinite, rfl⟩
  rw [hMin.le_iff hSelf, Int.cast_min] at hLower
  rw [hSelf.le_iff hMax, Int.cast_max] at hUpper
  exact ⟨hFinite, hLower, hUpper⟩

/-- The distance of two half words is held exactly. It may be greater than any half word. -/
theorem holds_natAbs_sub : Holds (Float.ofInt (b - a).natAbs) |(b : ℚ) - a| := by
  have hCast : (((b - a).natAbs : Int) : ℚ) = |(b : ℚ) - a| := by
    rw [Int.natCast_natAbs, Int.cast_abs, Int.cast_sub]
  have hApart := hSecond.natAbs_sub_lt hFirst
  rw [← hCast]
  exact holds_ofInt (by omega)

theorem between_last : Between a b (Float.ofInt b) :=
  ⟨(ofInt_le_ofInt_iff (isHalf_min hFirst hSecond) hSecond).2 (min_le_right a b),
    (ofInt_le_ofInt_iff hSecond (isHalf_max hFirst hSecond)).2 (le_max_right a b)⟩

/-- The stretch, moved by its first end, stays below its length, and above zero what was not below
that end. The difference may be rounded, but no bound is passed by that. -/
theorem sub_between {x : Float} (hBetween : Between a b x) :
    (0 ≤ (x - Float.ofInt a) * 1 + 0 ∧
      (x - Float.ofInt a) * 1 + 0 ≤ Float.ofInt (b - a).natAbs) ↔ Float.ofInt a ≤ x := by
  obtain ⟨hFinite, hMem⟩ := hBetween.mem_uIcc hFirst hSecond
  have hOrigin := holds_isHalf hFirst
  have hLength := holds_natAbs_sub hFirst hSecond
  have hMost : |value x - value (Float.ofInt a)| ≤ |(b : ℚ) - a| := by
    rw [hOrigin.value_eq]
    exact Set.abs_sub_left_of_mem_uIcc hMem
  have hRounds := rounds_float_sub hFinite hOrigin.isFinite ⟨_, hLength.representable, hMost⟩
  have hMoved := hRounds.holds_value.mul_one_add_zero
  rw [holds_zero.le_iff hMoved, hMoved.le_iff hLength, value_le_iff hOrigin.isFinite hFinite]
  have hSign := hRounds.nonneg_iff (stored_of_isFinite hFinite)
    (stored_of_isFinite hOrigin.isFinite)
  have hBelow := hRounds.le_of_le _ hLength.representable ((le_abs_self _).trans hMost)
  exact (and_iff_left hBelow).trans hSign

end

/-- The mapping before the first record moves the box and does nothing else. -/
theorem Header.place_initialMap {header : Wmf.Header} {placeable : Wmf.Placeable}
    (hPlaced : header.placeable = some placeable) (p : Point Float) :
    (Gdi.Session.initial (Header.wmf header).initialMap).place p =
      ⟨(p.x - Float.ofInt placeable.bounds.left) * 1 + 0,
        (p.y - Float.ofInt placeable.bounds.top) * 1 + 0⟩ := by
  have hWide : Float.ofInt 800 / Float.ofInt 800 = 1 := by decide +kernel
  have hHigh : Float.ofInt 600 / Float.ofInt 600 = 1 := by decide +kernel
  show CoordinateMap.apply (Header.wmf header).initialMap p = _
  rw [Header.initialMap, hPlaced]
  show (⟨_ * (Float.ofInt 800 / Float.ofInt 800) + _,
    _ * (Float.ofInt 600 / Float.ofInt 600) + _⟩ : Point Float) = _
  rw [hWide, hHigh]
  rfl

/-- The size of the box if it has an area. -/
theorem Header.surfaceSize_placed {header : Wmf.Header} {placeable : Wmf.Placeable}
    (hPlaced : header.placeable = some placeable) (hFits : placeable.bounds.Fits)
    (hWidth : placeable.bounds.width ≠ 0) (hHeight : placeable.bounds.height ≠ 0) :
    (Header.wmf header).surfaceSize =
      ⟨Float.ofInt placeable.bounds.width.natAbs, Float.ofInt placeable.bounds.height.natAbs⟩ := by
  have hAcross : placeable.bounds.width.natAbs < 2 ^ 32 := hFits.right.natAbs_sub_lt hFits.left
  have hDown : placeable.bounds.height.natAbs < 2 ^ 32 := hFits.bottom.natAbs_sub_lt hFits.top
  rw [Header.surfaceSize, hPlaced]
  exact if_pos (Size.isDrawable_ofInt (Int.natAbs_pos.2 hWidth) (by omega)
    (Int.natAbs_pos.2 hHeight) (by omega))

/-- A picture with a placeable header is drawn on a surface of the size of its box, from a mapping
that moves the box by the stored left and top edges. -/
theorem Picture.replay_placed {header : Wmf.Header} {placeable : Wmf.Placeable}
    (hPlaced : header.placeable = some placeable) (hFits : placeable.bounds.Fits)
    (hWidth : placeable.bounds.width ≠ 0) (hHeight : placeable.bounds.height ≠ 0)
    (rs : List Record) (error : Option HeaderError) :
    let box := placeable.bounds
    let size : Size Float := ⟨Float.ofInt box.width.natAbs, Float.ofInt box.height.natAbs⟩
    let start := Gdi.Session.initial (Header.wmf header).initialMap
    (Picture.replay ⟨.placeableWmf, some (.wmf header), rs, error⟩ .standard).calls =
        .setSize size :: .fillBackground .white :: Wmf.dialect.drawn start rs ∧
      (∀ p, box.Encloses p →
        (size.Encloses (start.place p) ↔
          Float.ofInt box.left ≤ p.x ∧ Float.ofInt box.top ≤ p.y)) ∧
      ((∀ p, box.Encloses p → size.Encloses (start.place p)) ↔
        box.left < box.right ∧ box.top < box.bottom) := by
  intro box size start
  have hLands : ∀ p, box.Encloses p →
      (size.Encloses (start.place p) ↔
        Float.ofInt box.left ≤ p.x ∧ Float.ofInt box.top ≤ p.y) := by
    rintro p ⟨hAcross, hDown⟩
    rw [Header.place_initialMap hPlaced]
    exact and_congr (sub_between hFits.left hFits.right hAcross)
      (sub_between hFits.top hFits.bottom hDown)
  refine ⟨?_, hLands, ?_, ?_⟩
  · rw [Picture.calls_replay_of_isGdi rfl]
    show (Call.setSize (Header.wmf header).surfaceSize :: _) ++ _ = _
    rw [Header.surfaceSize_placed hPlaced hFits hWidth hHeight]
    rfl
  · intro hAll
    have hCorner : box.Encloses ⟨Float.ofInt box.right, Float.ofInt box.bottom⟩ :=
      ⟨between_last hFits.left hFits.right, between_last hFits.top hFits.bottom⟩
    obtain ⟨hAcross, hDown⟩ := (hLands _ hCorner).1 (hAll _ hCorner)
    rw [ofInt_le_ofInt_iff hFits.left hFits.right] at hAcross
    rw [ofInt_le_ofInt_iff hFits.top hFits.bottom] at hDown
    exact ⟨lt_of_le_of_ne hAcross fun hSame => hWidth (sub_eq_zero.2 hSame.symm),
      lt_of_le_of_ne hDown fun hSame => hHeight (sub_eq_zero.2 hSame.symm)⟩
  · rintro ⟨hAcross, hDown⟩ p hMem
    refine (hLands p hMem).2 ⟨?_, ?_⟩
    · exact le_of_between hAcross.le hMem.1
    · exact le_of_between hDown.le hMem.2

/-- A box whose edges come in order. Its points keep their places relative to its corner. -/
theorem Picture.replay_placed_upright :
    let box : Rect := ⟨-100, 50, 100, 250⟩
    let header : Wmf.Header := ⟨some ⟨0x9AC6CDD7, 0, box, 1440, 0, 0⟩, 1, 9, 0x300, 0, 0, 0, 0⟩
    box.Fits ∧ box.width ≠ 0 ∧ box.height ≠ 0 ∧
      ∀ p, box.Encloses p → Size.Encloses ⟨Float.ofInt 200, Float.ofInt 200⟩
        ((Gdi.Session.initial (Header.wmf header).initialMap).place p) := by
  intro box header
  have hFits : box.Fits := ⟨by decide, by decide, by decide, by decide⟩
  have hSides : box.width ≠ 0 ∧ box.height ≠ 0 := by decide
  have hPlaced : header.placeable = some ⟨0x9AC6CDD7, 0, box, 1440, 0, 0⟩ := rfl
  have hLanding := Picture.replay_placed hPlaced hFits hSides.1 hSides.2 [] none
  exact ⟨hFits, hSides.1, hSides.2, hLanding.2.2.2 (by decide)⟩

/-- A box whose right edge is stored first. The point in its middle lands left of the surface. -/
theorem Picture.place_mirroredBox :
    let box : Rect := ⟨100, 0, 0, 50⟩
    let header : Header := .wmf ⟨some ⟨0x9AC6CDD7, 0, box, 1440, 0, 0⟩, 1, 9, 0x300, 0, 0, 0, 0⟩
    let size : Size Float := ⟨Float.ofInt 100, Float.ofInt 50⟩
    let place := (Gdi.Session.initial header.initialMap).place ⟨50, 25⟩
    box.width ≠ 0 ∧ box.height ≠ 0 ∧ box.Encloses ⟨50, 25⟩ ∧
      (Picture.replay ⟨.placeableWmf, some header, [], none⟩ .standard).calls =
        [.setSize size, .fillBackground .white] ∧
      place = ⟨-50, 25⟩ ∧ ¬size.Encloses place := by
  decide +kernel

end Metafile
