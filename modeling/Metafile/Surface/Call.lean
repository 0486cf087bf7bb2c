import Metafile.Color
import Metafile.Geometry.Curve

/-! Drawing calls. A surface keeps a style, which is a stroke colour, a fill colour
and a line width, and draws every shape in the style of that moment. -/

namespace Metafile

inductive Call where
  | setSize (size : Size Float)
  | fillBackground (color : Color)
  | moveTo (point : Point Float)
  | lineTo (point : Point Float)
  /-- Strokes what the last `moveTo` and `lineTo` calls described. -/
  | strokePath
  | fillRect (box : Box)
  | strokeRect (box : Box)
  | polyline (points : List (Point Float))
  /-- A closed polygon, filled and stroked. -/
  | polygon (points : List (Point Float))
  | drawText (text : String) (point : Point Float)
  | setFont (family : String) (size : Float)
  | setStrokeColor (color : Color)
  | setFillColor (color : Color)
  | setLineWidth (width : Float)
  | saveState
  | restoreState
deriving DecidableEq

namespace Call

/-- Surfaces have no ellipses of their own and get a polygon instead. -/
def ellipse (center : Point Float) (rx ry : Float) : Call :=
  .polygon (Ellipse.points center rx ry)

def isSetFont : Call → Bool
  | setFont _ _ => true
  | _ => false

def isMoveTo : Call → Bool
  | moveTo _ => true
  | _ => false

end Call

/-- A line is at least visible: widths that are not positive become one. -/
def visibleWidth (width : Float) : Float := if 0 < width then width else 1

end Metafile
