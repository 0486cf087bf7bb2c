import Metafile.Geometry.Point

/-! Curves as chains of straight segments: cubic Bézier curves cut at equal
steps of their parameter, and ellipses as polygons. -/

namespace Metafile

namespace Bezier

/-- How many segments stand for one cubic curve. -/
def steps : Nat := 16

variable {α : Type} [Scalar α]

/-- The point at parameter `t` of the cubic curve with four control points. -/
@[specialize]
def pointAt (p0 p1 p2 p3 : Point α) (t : α) : Point α :=
  let u := Scalar.ofInt 1 - t
  let a := u * u * u
  let b := Scalar.ofInt 3 * u * u * t
  let c := Scalar.ofInt 3 * u * t * t
  let d := t * t * t
  ⟨a * p0.x + b * p1.x + c * p2.x + d * p3.x, a * p0.y + b * p1.y + c * p2.y + d * p3.y⟩

/-- The points of one cubic curve after its start. -/
@[specialize]
def segment (p0 p1 p2 p3 : Point α) : List (Point α) :=
  (List.range steps).map fun (k : Nat) =>
    pointAt p0 p1 p2 p3 (Scalar.ofInt (k + 1) / Scalar.ofInt steps)

/-- The points after the start of a chain of cubic curves. Each curve takes three
control points and the next one starts where it ends; one or two points that
are left over draw nothing. -/
@[specialize]
def chain (start : Point α) : List (Point α) → List (Point α)
  | p1 :: p2 :: p3 :: rest => segment start p1 p2 p3 ++ chain p3 rest
  | _ => []

/-- A chain of cubic curves as one polyline. -/
@[specialize]
def flatten (start : Point α) (controls : List (Point α)) : List (Point α) :=
  start :: chain start controls

end Bezier

namespace Ellipse

/-- How many corners stand for an ellipse. -/
def corners : Nat := 48

private def fullTurn : Float := 6.283185307179586

/-- The corners of an ellipse with horizontal and vertical axes, at equal angles
from the right end on. -/
def points (center : Point Float) (rx ry : Float) : List (Point Float) :=
  (List.range corners).map fun i =>
    let angle := i.toFloat / corners.toFloat * fullTurn
    ⟨center.x + rx * angle.cos, center.y + ry * angle.sin⟩

/-- The corners of the ellipse that touches the sides of the box between two
opposite corners. -/
def between (a b : Point Float) : List (Point Float) :=
  points ⟨(a.x + b.x) / 2, (a.y + b.y) / 2⟩ ((b.x - a.x).abs / 2) ((b.y - a.y).abs / 2)

end Ellipse

end Metafile
