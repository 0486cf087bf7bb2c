import Metafile.Geometry.Scalar

/-! Points, sizes and rectangles. -/

namespace Metafile

structure Point (α : Type) where
  x : α
  y : α
deriving Repr, DecidableEq

structure Size (α : Type) where
  width : α
  height : α
deriving Repr, DecidableEq

/-- A rectangle by its edges. Records may store the edges in any order. -/
structure Rect where
  left : Int
  top : Int
  right : Int
  bottom : Int
deriving Repr, DecidableEq

/-- The same point in the numbers of the drawing. -/
def Point.ofInts {α : Type} [Scalar α] (p : Point Int) : Point α :=
  ⟨Scalar.ofInt p.x, Scalar.ofInt p.y⟩

/-- Something can be drawn on a surface only if both of its sides are finite and
greater than zero. -/
def Size.isDrawable (s : Size Float) : Bool :=
  s.width.isFinite && s.height.isFinite && 0 < s.width && 0 < s.height

namespace Rect

def width (r : Rect) : Int := r.right - r.left

def height (r : Rect) : Int := r.bottom - r.top

def isEmpty (r : Rect) : Bool := r.width ≤ 0 || r.height ≤ 0

end Rect

/-- The lesser of two numbers, and the other one if one of them is no number. -/
def lesser (a b : Float) : Float :=
  if a.isNaN then b else if b < a then b else a

/-- A box by its upper left corner and its size. -/
structure Box where
  x : Float
  y : Float
  width : Float
  height : Float
deriving Repr, DecidableEq

/-- The box between two opposite corners, which may come in any order. -/
def Box.between (a b : Point Float) : Box :=
  ⟨lesser a.x b.x, lesser a.y b.y, (b.x - a.x).abs, (b.y - a.y).abs⟩

end Metafile
