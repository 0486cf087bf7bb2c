import Metafile.Surface.Call
import Metafile.Svg.Markup

/-! The shapes of a drawing as markup elements. -/

namespace Metafile.Svg

structure Stroke where
  color : Color
  width : Float

/-- One move of the pen along a path. -/
inductive Segment where
  | move (point : Point Float)
  | line (point : Point Float)

inductive Shape where
  | filledBox (box : Box) (fill : Color)
  | outlinedBox (box : Box) (stroke : Stroke)
  | path (segments : List Segment) (stroke : Stroke)
  | polyline (points : List (Point Float)) (stroke : Stroke)
  | polygon (points : List (Point Float)) (fill : Color) (stroke : Stroke)
  | text (text : String) (point : Point Float) (family : String) (size : Float) (fill : Color)

/-- A colour that cannot be seen is no paint at all. -/
def paint (color : Color) : String := if color.alpha = 0 then "none" else color.css

def pointText (p : Point Float) : String := Decimal.text p.x ++ "," ++ Decimal.text p.y

def Segment.text : Segment → String
  | move p => "M" ++ pointText p
  | line p => "L" ++ pointText p

def spaced (words : List String) : String := " ".intercalate words

def strokeAttributes (s : Stroke) : List (String × String) :=
  [("stroke", paint s.color), ("stroke-width", Decimal.text s.width)]

def cornerAttributes (b : Box) : List (String × String) :=
  [("width", Decimal.text b.width), ("x", Decimal.text b.x), ("y", Decimal.text b.y)]

/-- The element of a shape. -/
def Shape.node : Shape → Node
  | filledBox box fill =>
    .element "rect"
      ([("fill", paint fill), ("height", Decimal.text box.height)] ++ cornerAttributes box) []
  | outlinedBox box stroke =>
    .element "rect"
      ([("fill", "none"), ("height", Decimal.text box.height)] ++ strokeAttributes stroke ++
        cornerAttributes box) []
  | path segments stroke =>
    .element "path"
      ([("d", spaced (segments.map Segment.text)), ("fill", "none")] ++ strokeAttributes stroke)
      []
  | polyline points stroke =>
    .element "polyline"
      ([("fill", "none"), ("points", spaced (points.map pointText))] ++ strokeAttributes stroke)
      []
  | polygon points fill stroke =>
    .element "polygon"
      ([("fill", paint fill), ("points", spaced (points.map pointText))] ++
        strokeAttributes stroke) []
  | text content point family size fill =>
    .element "text"
      [("fill", paint fill), ("font-family", family), ("font-size", Decimal.text size),
        ("x", Decimal.text point.x), ("y", Decimal.text point.y)] [.text content]

/-- A document of the given size with elements in it. -/
def document (size : Size Float) (children : List Node) : Node :=
  let width := Decimal.text size.width
  let height := Decimal.text size.height
  .element "svg"
    [("height", height), ("viewBox", spaced ["0", "0", width, height]), ("width", width),
      ("xmlns", "http://www.w3.org/2000/svg")] children

end Metafile.Svg
