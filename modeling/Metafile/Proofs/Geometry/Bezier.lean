import Mathlib.Data.List.Forall2
import Mathlib.Tactic.Positivity
import Metafile.Geometry.Curve
import Metafile.Proofs.Geometry.Binary64

/-! Chains of cubic curves as polylines. Main statement: in exact numbers the polyline of a chain
has a corner at every anchor and stays inside the control points of each curve, chains can be put
behind each other and turned round, and control points left over do nothing. Coordinates of a
machine's half words are computed without rounding, so that what is drawn is exact too. -/

namespace Metafile.Bezier

open Binary64
open Machine (IsHalf)

variable {α : Type}

/-- A chain is empty, or its first curve is followed by a chain from the last point of that. -/
@[elab_as_elim]
theorem chain_induction {motive : Point α → List (Point α) → Prop}
    (short : ∀ start controls, controls.length < 3 → motive start controls)
    (curve : ∀ start p1 p2 p3 rest, motive p3 rest → motive start (p1 :: p2 :: p3 :: rest))
    (start : Point α) (controls : List (Point α)) : motive start controls := by
  induction start, controls using chain.induct with
  | case1 start p1 p2 p3 rest ih => exact curve start p1 p2 p3 rest ih
  | case2 controls start hShort =>
      refine short start controls ?_
      match controls, hShort with
      | [], _ | [_], _ | [_, _], _ => simp
      | p1 :: p2 :: p3 :: rest, hShort => exact (hShort p1 p2 p3 rest rfl).elim

section

variable [Scalar α]

/-- Less than three control points make no curve. What is left over at the end of a chain is
dropped like this. -/
theorem chain_short (start : Point α) {controls : List (Point α)} (hShort : controls.length < 3) :
    chain start controls = [] := by
  match controls, hShort with
  | [], _ | [_], _ | [_, _], _ => rfl

/-- Every curve is drawn in sixteen steps, however long it is. -/
theorem length_segment (p0 p1 p2 p3 : Point α) : (segment p0 p1 p2 p3).length = 16 := by
  rw [segment, List.length_map, List.length_range, steps]

/-- The number of points is known from the number of control points alone: the start and sixteen
points for each whole curve. -/
theorem length_flatten (start : Point α) (controls : List (Point α)) :
    (flatten start controls).length = 1 + 16 * (controls.length / 3) := by
  rw [flatten, List.length_cons]
  induction start, controls using chain_induction with
  | short start controls hShort =>
      rw [chain_short start hShort, Nat.div_eq_of_lt hShort]
      rfl
  | curve start p1 p2 p3 rest ih =>
      rw [chain, List.length_append, length_segment]
      simp only [List.length_cons]
      omega

/-- Control points left over do nothing, as they make no whole curve. -/
theorem flatten_take (start : Point α) (controls : List (Point α)) :
    flatten start (controls.take (3 * (controls.length / 3))) = flatten start controls := by
  rw [flatten, flatten]
  congr 1
  induction start, controls using chain_induction with
  | short start controls hShort =>
      rw [chain_short start hShort, Nat.div_eq_of_lt hShort]
      rfl
  | curve start p1 p2 p3 rest ih =>
      have hCount : 3 * ((p1 :: p2 :: p3 :: rest).length / 3) = 3 * (rest.length / 3) + 3 := by
        simp only [List.length_cons]
        omega
      rw [hCount]
      simp only [List.take_succ_cons, chain, ih]

/-- Behind whole curves a chain goes on at their last anchor. The condition is needed, as control
points left over would be taken into the next curve. -/
theorem chain_append {start : Point α} {first : List (Point α)} (hWhole : 3 ∣ first.length)
    (second : List (Point α)) :
    chain start (first ++ second) = chain start first ++ chain (first.getLastD start) second := by
  induction start, first using chain_induction with
  | short start first hShort =>
      obtain rfl := List.length_eq_zero_iff.1 (Nat.eq_zero_of_dvd_of_lt hWhole hShort)
      rfl
  | curve start p1 p2 p3 rest ih =>
      have hRest : 3 ∣ rest.length := (Nat.dvd_add_left (dvd_refl 3)).1 hWhole
      rw [List.getLastD_cons, List.getLastD_cons, List.getLastD_cons]
      simp only [List.cons_append, chain, ih hRest, List.append_assoc]

/-- A chain behind a chain of whole curves starts at the last anchor of these. -/
theorem flatten_append {start : Point α} {first : List (Point α)} (hWhole : 3 ∣ first.length)
    (second : List (Point α)) :
    flatten start (first ++ second) =
      flatten start first ++ (flatten (first.getLastD start) second).tail := by
  simp only [flatten, chain_append hWhole, List.cons_append, List.tail_cons]

end

/-- A coordinate of a cubic curve. -/
def cubic [Scalar α] (a b c d t : α) : α :=
  let u := Scalar.ofInt 1 - t
  u * u * u * a + Scalar.ofInt 3 * u * u * t * b + Scalar.ofInt 3 * u * t * t * c + t * t * t * d

/-- The two coordinates of a point on a curve are computed apart from each other and in the same
way. -/
theorem pointAt_eq [Scalar α] (p0 p1 p2 p3 : Point α) (t : α) :
    pointAt p0 p1 p2 p3 t = ⟨cubic p0.x p1.x p2.x p3.x t, cubic p0.y p1.y p2.y p3.y t⟩ := rfl

/-! Exact numbers. -/

section

variable (a b c d t : ℚ)

/-- In exact numbers a coordinate is the Bernstein polynomial of its four values. -/
theorem cubic_rat : cubic a b c d t =
    (1 - t) ^ 3 * a + 3 * (1 - t) ^ 2 * t * b + 3 * (1 - t) * t ^ 2 * c + t ^ 3 * d := by
  show (1 - t) * (1 - t) * (1 - t) * a + 3 * (1 - t) * (1 - t) * t * b +
    3 * (1 - t) * t * t * c + t * t * t * d = _
  ring

theorem cubic_zero : cubic a b c d 0 = a := by
  rw [cubic_rat]
  ring

theorem cubic_one : cubic a b c d 1 = d := by
  rw [cubic_rat]
  ring

/-- A curve that is run through backwards is the curve of the points in reverse. -/
theorem cubic_one_sub : cubic a b c d (1 - t) = cubic d c b a t := by
  rw [cubic_rat, cubic_rat]
  ring

/-- Mirroring the points mirrors the curve. So bounds from above give bounds from below. -/
theorem cubic_neg : cubic (-a) (-b) (-c) (-d) t = -cubic a b c d t := by
  rw [cubic_rat, cubic_rat]
  ring

variable {a b c d t}

/-- A coordinate is a mean of those of the control points. -/
theorem le_cubic {bound : ℚ} (hLower : 0 ≤ t) (hUpper : t ≤ 1) (h0 : bound ≤ a) (h1 : bound ≤ b)
    (h2 : bound ≤ c) (h3 : bound ≤ d) : bound ≤ cubic a b c d t := by
  have hMean : cubic a b c d t - bound = (1 - t) ^ 3 * (a - bound) +
      3 * (1 - t) ^ 2 * t * (b - bound) + 3 * (1 - t) * t ^ 2 * (c - bound) +
      t ^ 3 * (d - bound) := by
    rw [cubic_rat]
    ring
  rw [← sub_nonneg] at hUpper h0 h1 h2 h3 ⊢
  rw [hMean]
  positivity

end

/-- The point is in the smallest box with the given points in it: on each side some of these are at
least as far out. -/
def Within (ps : List (Point ℚ)) (q : Point ℚ) : Prop :=
  (∃ p ∈ ps, p.x ≤ q.x) ∧ (∃ p ∈ ps, q.x ≤ p.x) ∧ (∃ p ∈ ps, p.y ≤ q.y) ∧ ∃ p ∈ ps, q.y ≤ p.y

section

variable (p0 p1 p2 p3 : Point ℚ)

theorem pointAt_zero : pointAt p0 p1 p2 p3 0 = p0 := by
  rw [pointAt_eq, cubic_zero, cubic_zero]

theorem pointAt_one : pointAt p0 p1 p2 p3 1 = p3 := by
  rw [pointAt_eq, cubic_one, cubic_one]

/-- A curve is run through backwards if its points are put in reverse. -/
theorem pointAt_one_sub (t : ℚ) : pointAt p0 p1 p2 p3 (1 - t) = pointAt p3 p2 p1 p0 t := by
  rw [pointAt_eq, pointAt_eq, cubic_one_sub, cubic_one_sub]

/-- One of the control points lies no further along any axis, whichever way it runs. -/
theorem exists_le_cubic {t : ℚ} (hLower : 0 ≤ t) (hUpper : t ≤ 1) (f : Point ℚ → ℚ) :
    ∃ p ∈ [p0, p1, p2, p3], f p ≤ cubic (f p0) (f p1) (f p2) (f p3) t := by
  obtain ⟨p, hMem, hLeast⟩ :=
    Finset.exists_min_image [p0, p1, p2, p3].toFinset f ⟨p0, by simp⟩
  simp only [List.mem_toFinset, List.forall_mem_cons] at hMem hLeast
  obtain ⟨h0, h1, h2, h3, -⟩ := hLeast
  exact ⟨p, hMem, le_cubic hLower hUpper h0 h1 h2 h3⟩

/-- A point on a curve lies in the box of its four points, since its coordinates are means of
theirs. -/
theorem within_pointAt {t : ℚ} (hLower : 0 ≤ t) (hUpper : t ≤ 1) :
    Within [p0, p1, p2, p3] (pointAt p0 p1 p2 p3 t) := by
  have hLeast := exists_le_cubic p0 p1 p2 p3 hLower hUpper
  have hMost : ∀ f : Point ℚ → ℚ,
      ∃ p ∈ [p0, p1, p2, p3], cubic (f p0) (f p1) (f p2) (f p3) t ≤ f p := by
    intro f
    obtain ⟨p, hMem, hNeg⟩ := hLeast fun p => -f p
    rw [cubic_neg] at hNeg
    exact ⟨p, hMem, neg_le_neg_iff.1 hNeg⟩
  exact ⟨hLeast Point.x, hMost Point.x, hLeast Point.y, hMost Point.y⟩

/-- The points of a curve with its start. -/
def curve : List (Point ℚ) := (List.range 17).map fun i : Nat => pointAt p0 p1 p2 p3 (i / 16)

/-- The first of the points that are computed is the start, which a chain does not put out
again. -/
theorem cons_segment : p0 :: segment p0 p1 p2 p3 = curve p0 p1 p2 p3 := by
  rw [curve, List.range_succ_eq_map, List.map_cons, Nat.cast_zero, zero_div, pointAt_zero,
    List.map_map]
  rfl

/-- The polyline of a curve in reverse is that of its points in reverse. Both are computed at the
same seventeen places. -/
theorem curve_reverse : (curve p0 p1 p2 p3).reverse = curve p3 p2 p1 p0 := by
  rw [curve, ← List.map_reverse, List.range_eq_range', List.reverse_range', List.map_map]
  refine List.map_congr_left fun i hMem => ?_
  have hLess : i ≤ 16 := Nat.le_of_lt_succ (List.mem_range.1 hMem)
  have hParameter : ((0 + 17 - 1 - i : Nat) : ℚ) / 16 = 1 - i / 16 := by
    rw [Nat.cast_sub hLess]
    push_cast
    ring
  rw [Function.comp_apply, hParameter, pointAt_one_sub]

end

section

variable (start p1 p2 p3 : Point ℚ) (rest : List (Point ℚ))

/-- A chain is drawn as its first curve, followed by the chain that is left. -/
theorem flatten_eq_curve_append :
    flatten start (p1 :: p2 :: p3 :: rest) = curve start p1 p2 p3 ++ chain p3 rest := by
  rw [← cons_segment, flatten, chain, List.cons_append]

/-- The points before the end of the first curve, and the polyline of the chain from there. -/
theorem flatten_eq_append :
    flatten start (p1 :: p2 :: p3 :: rest) =
      (List.range 16).map (fun i : Nat => pointAt start p1 p2 p3 (i / 16)) ++ flatten p3 rest := by
  have hEnd : pointAt start p1 p2 p3 ((16 : Nat) / 16) = p3 := by
    rw [Nat.cast_ofNat, div_self (by decide), pointAt_one]
  rw [flatten_eq_curve_append, curve, List.range_succ, List.map_append, List.append_assoc,
    List.map_singleton, hEnd]
  rfl

end

/-- From each anchor the polyline has sixteen segments along the curve of the next three control
points, up to the next anchor. -/
theorem flatten_getElem? {start : Point ℚ} {controls : List (Point ℚ)} {k i : Nat}
    (hCurve : k < controls.length / 3) (hStep : i ≤ 16) :
    ∃ p0 p1 p2 p3, ((start :: controls).drop (3 * k)).take 4 = [p0, p1, p2, p3] ∧
      (flatten start controls)[16 * k + i]? = some (pointAt p0 p1 p2 p3 (i / 16)) := by
  induction start, controls using chain_induction generalizing k with
  | short start controls hShort =>
      rw [Nat.div_eq_of_lt hShort] at hCurve
      exact absurd hCurve (Nat.not_lt_zero k)
  | curve start p1 p2 p3 rest ih =>
      cases k with
      | zero =>
          refine ⟨start, p1, p2, p3, rfl, ?_⟩
          rw [flatten_eq_curve_append, curve, List.getElem?_append_left (by simp; omega),
            Nat.mul_zero, Nat.zero_add, List.getElem?_map, List.getElem?_range (by omega)]
          rfl
      | succ k =>
          have hRest : k < rest.length / 3 := by
            simp only [List.length_cons] at hCurve
            omega
          obtain ⟨q0, q1, q2, q3, hControls, hPoint⟩ := ih hRest
          refine ⟨q0, q1, q2, q3, hControls, ?_⟩
          rw [flatten_eq_append, List.getElem?_append_right (by simp; omega), ← hPoint,
            List.length_map, List.length_range]
          congr 1
          omega

/-- The polyline meets every anchor: behind the start each sixteenth point is the last control
point of a curve. -/
theorem flatten_anchor {start : Point ℚ} {controls : List (Point ℚ)} {k : Nat}
    (hAnchor : k ≤ controls.length / 3) :
    (flatten start controls)[16 * k]? = (start :: controls)[3 * k]? := by
  cases k with
  | zero => rfl
  | succ k =>
      obtain ⟨p0, p1, p2, p3, hControls, hPoint⟩ :=
        @flatten_getElem? start controls k 16 hAnchor (Nat.le_refl 16)
      have hLast : (start :: controls)[3 * k + 3]? = some p3 := by
        rw [← List.getElem?_drop, ← List.getElem?_take_of_lt (show 3 < 4 by decide), hControls]
        rfl
      rw [Nat.cast_ofNat, div_self (by decide), pointAt_one] at hPoint
      exact hPoint.trans hLast.symm

/-- Turned round, a chain of whole curves has the same points in the other order. -/
theorem flatten_reverse {start start' : Point ℚ} {controls controls' : List (Point ℚ)}
    (hWhole : 3 ∣ controls.length) (hReverse : start' :: controls' = (start :: controls).reverse) :
    flatten start' controls' = (flatten start controls).reverse := by
  induction start, controls using chain_induction generalizing start' controls' with
  | short start controls hShort =>
      obtain rfl := List.length_eq_zero_iff.1 (Nat.eq_zero_of_dvd_of_lt hWhole hShort)
      obtain ⟨rfl, rfl⟩ := List.cons.inj hReverse
      rfl
  | curve start p1 p2 p3 rest ih =>
      have hRest : 3 ∣ rest.length := (Nat.dvd_add_left (dvd_refl 3)).1 hWhole
      obtain ⟨first, others, hOthers⟩ := List.exists_cons_of_ne_nil
        (List.reverse_ne_nil_iff.2 (List.cons_ne_nil p3 rest))
      have hCount : 3 ∣ others.length := by
        have hLength := congrArg List.length hOthers
        rw [List.length_reverse, List.length_cons, List.length_cons] at hLength
        rwa [← Nat.succ.inj hLength]
      have hAnchor : others.getLastD first = p3 := by
        have hLast := congrArg List.getLast? hOthers
        rw [List.getLast?_reverse, List.head?_cons, List.getLast?_cons] at hLast
        rw [List.getLastD_eq_getLast?]
        exact (Option.some.inj hLast).symm
      -- The polygon that is turned round ends with the first curve, which starts where the rest
      -- ends.
      have hParts : start' :: controls' = first :: (others ++ [p2, p1, start]) := by
        rw [hReverse, ← List.cons_append, ← hOthers]
        simp
      obtain ⟨rfl, rfl⟩ := List.cons.inj hParts
      calc flatten start' (others ++ [p2, p1, start])
        _ = (flatten p3 rest).reverse ++ (flatten p3 [p2, p1, start]).tail := by
          rw [flatten_append hCount, hAnchor, ih hRest hOthers.symm]
        _ = (chain p3 rest).reverse ++ p3 :: segment p3 p2 p1 start := by
          simp only [flatten, chain, List.reverse_cons, List.append_nil, List.tail_cons,
            List.append_assoc, List.singleton_append]
        _ = (flatten start (p1 :: p2 :: p3 :: rest)).reverse := by
          rw [flatten_eq_curve_append, List.reverse_append, curve_reverse, cons_segment]

/-! Numbers of a machine. -/

/-- The parameters of the points of a curve are computed without rounding. -/
theorem holds_parameter : ∀ k < 16,
    Holds (Float.ofInt (k + 1 : Nat) / Float.ofInt 16) ((k + 1 : Nat) / 16) := by
  have hAll : ∀ k < 16, (Float.ofInt (k + 1 : Nat) / Float.ofInt 16).isFinite ∧
      value (Float.ofInt (k + 1 : Nat) / Float.ofInt 16) = (k + 1 : Nat) / 16 := by
    decide +kernel
  exact fun k hStep => ⟨(hAll k hStep).1, (hAll k hStep).2⟩

/-- At such a parameter no product or sum in a coordinate has more digits than fit. -/
theorem holds_cubic {a b c d : Int} (h0 : IsHalf a) (h1 : IsHalf b) (h2 : IsHalf c)
    (h3 : IsHalf d) {k : Nat} (hStep : k < 16) :
    Holds (cubic (Float.ofInt a) (Float.ofInt b) (Float.ofInt c) (Float.ofInt d)
        (Float.ofInt (k + 1 : Nat) / Float.ofInt 16))
      (cubic (a : ℚ) b c d ((k + 1 : Nat) / 16)) := by
  have hParameter := holds_parameter k hStep
  have hRest : (1 - (k + 1 : Nat) / 16 : ℚ) = ((15 - k : ℤ) : ℚ) / 2 ^ 4 := by
    push_cast
    ring
  have ht : IsFraction (Float.ofInt (k + 1 : Nat) / Float.ofInt 16) 4 16 ((k + 1 : Nat) / 16) :=
    ⟨(k + 1 : Nat), by omega, by norm_num, hParameter⟩
  have hu : IsFraction (Float.ofInt 1 - Float.ofInt (k + 1 : Nat) / Float.ofInt 16) 4 16
      (1 - (k + 1 : Nat) / 16) := by
    refine ⟨15 - k, by omega, hRest, holds_one.sub hParameter ?_⟩
    rw [hRest]
    exact representable_div_two_pow (by omega) (by decide)
  have hThree : IsFraction (Float.ofInt 3) 0 3 (3 : Int) := isFraction_ofInt (by decide) (by decide)
  have hCoordinate : ∀ {n : Int}, IsHalf n → IsFraction (Float.ofInt n) 0 (2 ^ 31) n :=
    fun ⟨hLower, hUpper⟩ => isFraction_ofInt (by omega) (by decide)
  -- Of each term the numerator over 2 ^ 12 is below 2 ^ 45, so a significand has room for the sum.
  have hFirst := ((hu.mul hu (by decide)).mul hu (by decide)).mul (hCoordinate h0) (by decide)
  have hSecond := (((hThree.mul hu (by decide)).mul hu (by decide)).mul ht (by decide)).mul
    (hCoordinate h1) (by decide)
  have hThird := (((hThree.mul hu (by decide)).mul ht (by decide)).mul ht (by decide)).mul
    (hCoordinate h2) (by decide)
  have hFourth := ((ht.mul ht (by decide)).mul ht (by decide)).mul (hCoordinate h3) (by decide)
  obtain ⟨-, -, -, hHolds⟩ :=
    ((hFirst.add hSecond (by decide)).add hThird (by decide)).add hFourth (by decide)
  exact hHolds

/-- The float coordinates are the exact ones. -/
def HoldsPoint (p : Point Float) (q : Point ℚ) : Prop := Holds p.x q.x ∧ Holds p.y q.y

/-- The coordinates are half words. -/
def IsHalfPoint (p : Point Int) : Prop := IsHalf p.x ∧ IsHalf p.y

instance (p : Point Int) : Decidable (IsHalfPoint p) := inferInstanceAs (Decidable (_ ∧ _))

/-- Coordinates in the range of half words are held by floats as they are. -/
theorem holdsPoint_ofInts {p : Point Int} (hHalf : IsHalfPoint p) :
    HoldsPoint p.ofInts p.ofInts :=
  ⟨holds_isHalf hHalf.1, holds_isHalf hHalf.2⟩

/-- Points on a curve are held as well: every product and sum on the way has room in the
significand. -/
theorem holds_segment {p0 p1 p2 p3 : Point Int} (h0 : IsHalfPoint p0) (h1 : IsHalfPoint p1)
    (h2 : IsHalfPoint p2) (h3 : IsHalfPoint p3) :
    List.Forall₂ HoldsPoint (segment p0.ofInts p1.ofInts p2.ofInts p3.ofInts)
      (segment p0.ofInts p1.ofInts p2.ofInts p3.ofInts) := by
  rw [segment, segment, List.forall₂_map_left_iff, List.forall₂_map_right_iff, List.forall₂_same]
  intro k hMem
  have hStep : k < 16 := List.mem_range.1 hMem
  exact ⟨holds_cubic h0.1 h1.1 h2.1 h3.1 hStep, holds_cubic h0.2 h1.2 h2.2 h3.2 hStep⟩

/-- What is computed from half words is exact, so that the statements on exact numbers hold of
the floats that are drawn. -/
theorem holds_flatten {start : Point Int} {controls : List (Point Int)}
    (hHalves : ∀ p ∈ start :: controls, IsHalfPoint p) :
    List.Forall₂ HoldsPoint (flatten start.ofInts (controls.map Point.ofInts))
      (flatten start.ofInts (controls.map Point.ofInts)) := by
  refine .cons (holdsPoint_ofInts (hHalves start List.mem_cons_self)) ?_
  induction start, controls using chain_induction with
  | short start controls hShort =>
      rw [chain_short _ (by rwa [List.length_map]), chain_short _ (by rwa [List.length_map])]
      exact .nil
  | curve start p1 p2 p3 rest ih =>
      simp only [List.forall_mem_cons] at hHalves ih
      obtain ⟨h0, h1, h2, h3, hRest⟩ := hHalves
      simp only [List.map_cons, chain]
      exact List.rel_append (holds_segment h0 h1 h2 h3) (ih ⟨h3, hRest⟩)

/-- The polyline of a chain of cubic curves has sixteen segments for each of them: it meets the
anchors, stays inside the control points of each curve and ignores those left over. Chains can be
put behind each other and turned round. What is computed from half words is the same polyline. -/
theorem flatten_geometry :
    (∀ (start : Point ℚ) (controls : List (Point ℚ)),
      let count := controls.length / 3
      let points := flatten start controls
      points.length = 1 + 16 * count ∧
      (∀ k ≤ count, points[16 * k]? = (start :: controls)[3 * k]?) ∧
      (∀ k < count, ∀ i ≤ 16, ∃ q, points[16 * k + i]? = some q ∧
        Within (((start :: controls).drop (3 * k)).take 4) q) ∧
      flatten start (controls.take (3 * count)) = points ∧
      (3 ∣ controls.length → ∀ more,
        flatten start (controls ++ more) =
          points ++ (flatten (controls.getLastD start) more).tail) ∧
      (3 ∣ controls.length → ∀ start' controls',
        start' :: controls' = (start :: controls).reverse →
          flatten start' controls' = points.reverse)) ∧
    ∀ (start : Point Int) (controls : List (Point Int)),
      (∀ p ∈ start :: controls, IsHalfPoint p) →
        List.Forall₂ HoldsPoint (flatten start.ofInts (controls.map Point.ofInts))
          (flatten start.ofInts (controls.map Point.ofInts)) := by
  refine ⟨fun start controls => ⟨length_flatten start controls, fun k => flatten_anchor, ?_,
    flatten_take start controls, fun hWhole more => flatten_append hWhole more,
    fun hWhole start' controls' => flatten_reverse hWhole⟩,
    fun start controls => holds_flatten⟩
  intro k hCurve i hStep
  obtain ⟨p0, p1, p2, p3, hControls, hPoint⟩ := flatten_getElem? hCurve hStep
  refine ⟨_, hPoint, ?_⟩
  rw [hControls]
  exact within_pointAt p0 p1 p2 p3 (by positivity)
    ((div_le_one (by decide)).2 (by exact_mod_cast hStep))

/-- Two curves with a common tangent, and one control point left over. -/
theorem flatten_geometry_wave :
    let start : Point Int := ⟨0, 0⟩
    let first : List (Point Int) := [⟨0, 10⟩, ⟨10, 10⟩, ⟨10, 0⟩]
    let controls := first ++ [⟨10, -10⟩, ⟨20, -10⟩, ⟨20, 0⟩, ⟨30, 0⟩]
    let points : List (Point ℚ) := flatten start.ofInts (controls.map Point.ofInts)
    (∀ p ∈ start :: controls, IsHalfPoint p) ∧
      List.Forall₂ HoldsPoint (flatten start.ofInts (controls.map Point.ofInts)) points ∧
      points.length = 33 ∧ points[16]? = some (Point.ofInts ⟨10, 0⟩) ∧
      ∃ q, points[24]? = some q ∧
        Within ([⟨10, 0⟩, ⟨10, -10⟩, ⟨20, -10⟩, ⟨20, 0⟩].map Point.ofInts) q := by
  intro start first controls points
  have hHalves : ∀ p ∈ start :: controls, IsHalfPoint p := by decide
  obtain ⟨hLength, hAnchor, hWithin, -⟩ :=
    flatten_geometry.1 start.ofInts (controls.map Point.ofInts)
  exact ⟨hHalves, flatten_geometry.2 start controls hHalves, hLength.trans (by decide),
    hAnchor 1 (by decide), hWithin 1 (by decide) 8 (by decide)⟩

end Metafile.Bezier
