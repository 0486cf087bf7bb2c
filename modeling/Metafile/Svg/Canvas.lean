import Metafile.Surface
import Metafile.Svg.Shape

/-! A drawing surface that collects shapes and writes them as a document. -/

namespace Metafile.Svg

/-- What `Call.saveState` puts aside. The font does not belong to it. -/
structure Style where
  stroke : Stroke
  fill : Color

structure Canvas where
  size : Size Float
  shapes : Array Shape
  style : Style
  /-- The styles put aside, the newest one first. -/
  saved : List Style
  /-- The path that the next `Call.strokePath` draws. -/
  path : Array Segment
  family : String
  fontSize : Float

namespace Canvas

def empty : Canvas where
  size := ⟨0, 0⟩
  shapes := #[]
  style := ⟨⟨.black, 1⟩, .white⟩
  saved := []
  path := #[]
  family := "Arial"
  fontSize := 12

def add (c : Canvas) (shape : Shape) : Canvas := { c with shapes := c.shapes.push shape }

/-- Carries out a drawing call. A chain of points needs at least two of them to be
seen, and a line without a start is a start itself. -/
def draw (c : Canvas) : Call → Canvas
  | .setSize size => { c with size }
  | .fillBackground color => c.add (.filledBox ⟨0, 0, c.size.width, c.size.height⟩ color)
  | .moveTo point => { c with path := c.path.push (.move point) }
  | .lineTo point =>
    { c with path := c.path.push (if c.path.isEmpty then .move point else .line point) }
  | .strokePath =>
    if c.path.isEmpty then c
    else { c.add (.path c.path.toList c.style.stroke) with path := #[] }
  | .fillRect box => c.add (.filledBox box c.style.fill)
  | .strokeRect box => c.add (.outlinedBox box c.style.stroke)
  | .polyline points => if points.length < 2 then c else c.add (.polyline points c.style.stroke)
  | .polygon points =>
    if points.length < 2 then c else c.add (.polygon points c.style.fill c.style.stroke)
  | .drawText text point => c.add (.text text point c.family c.fontSize c.style.fill)
  | .setFont family size =>
    { c with family := if family.isEmpty then c.family else family, fontSize := size }
  | .setStrokeColor color => { c with style.stroke.color := color }
  | .setFillColor color => { c with style.fill := color }
  | .setLineWidth width => { c with style.stroke.width := width }
  | .saveState => { c with saved := c.style :: c.saved }
  | .restoreState =>
    match c.saved with
    | [] => c
    | style :: older => { c with style, saved := older }

instance : Surface Canvas := ⟨draw⟩

/-- The canvas behind a sequence of calls. -/
def ofCalls (calls : List Call) : Canvas := calls.foldl draw empty

/-- The text of the whole drawing in the hand of a writer. -/
def write (c : Canvas) (w : Writer) : String :=
  w.render (document c.size (c.shapes.toList.map Shape.node))

/-- The text of the whole drawing. -/
def text (c : Canvas) : String := c.write .standard

end Canvas

end Metafile.Svg
