import Metafile.Gdi.ObjectTable
import Metafile.Geometry.Affine
import Metafile.Surface.Plotter

/-! What EMF+ records do. They have objects of their own and one affine map from
their coordinates to the surface, and they name pen and brush anew for each
shape. -/

namespace Metafile.Plus

/-- A brush named by a record: a colour in its place, or an object. -/
inductive BrushRef where
  | color (color : Color)
  | object (handle : Nat)
deriving Repr, DecidableEq

inductive Action where
  | define (handle : Nat) (object : Gdi.Object)
  | clear (color : Color)
  | fillWith (brush : BrushRef)
  | fillWithNothing
  | strokeWith (pen : Nat)
  | strokeWithNothing
  | fillBoxes (boxes : List Box)
  | strokeBoxes (boxes : List Box)
  | polygon (points : List (Point Float))
  | polyline (points : List (Point Float))
  | ellipse (box : Box)
  | text (text : String) (point : Point Float)
  | save (index : Nat)
  | restore (index : Nat)
  | setTransform (transform : Affine Float)
  /-- Combines the transform with a matrix, which acts after it if it is appended
  and before it otherwise. -/
  | multiply (matrix : Affine Float) (append : Bool)

/-- What `Action.save` puts aside under an index. -/
structure SavedTransform where
  index : Nat
  transform : Affine Float

structure Session where
  objects : Gdi.ObjectTable
  transform : Affine Float
  /-- The transforms put aside, the newest one first. -/
  saved : List SavedTransform

namespace Session

def initial : Session := ⟨.empty, .identity, []⟩

def place (s : Session) (point : Point Float) : Point Float := s.transform.apply point

/-- The saved transforms from the newest one with the given index on. -/
def savedFrom (s : Session) (index : Nat) : List SavedTransform :=
  s.saved.dropWhile fun entry => entry.index != index

/-- How an action changes the session. -/
def step (s : Session) : Action → Session
  | .define handle object => { s with objects := s.objects.put handle object }
  | .save index => { s with saved := ⟨index, s.transform⟩ :: s.saved }
  | .restore index =>
    match s.savedFrom index with
    | [] => s
    | entry :: older => { s with transform := entry.transform, saved := older }
  | .setTransform transform => { s with transform }
  | .multiply matrix append =>
    { s with
      transform := if append then s.transform.andThen matrix else matrix.andThen s.transform }
  | _ => s

/-- A brush that is not defined paints black. -/
def brushColor (s : Session) : BrushRef → Color
  | .color color => color
  | .object handle =>
    match s.objects.select? handle with
    | some (.brush brush) => brush.color
    | _ => .black

/-- A pen that is not defined draws thin black lines. -/
def penCalls (s : Session) (handle : Nat) : List Call :=
  match s.objects.select? handle with
  | some (.pen pen) => [.setStrokeColor pen.color, .setLineWidth (visibleWidth pen.width)]
  | _ => [.setStrokeColor .black, .setLineWidth 1]

/-- Two opposite corners of a box on the surface. -/
def corners (s : Session) (box : Box) : Point Float × Point Float :=
  (s.place ⟨box.x, box.y⟩, s.place ⟨box.x + box.width, box.y + box.height⟩)

def placeBox (s : Session) (box : Box) : Box :=
  Box.between (s.corners box).1 (s.corners box).2

/-- What an action draws. -/
def draw (s : Session) : Action → List Call
  | .clear color => [.fillBackground color]
  | .fillWith brush => [.setFillColor (s.brushColor brush)]
  | .fillWithNothing => [.setFillColor .transparent]
  | .strokeWith pen => s.penCalls pen
  | .strokeWithNothing => [.setStrokeColor .transparent]
  | .fillBoxes boxes => boxes.map fun box => .fillRect (s.placeBox box)
  | .strokeBoxes boxes => boxes.map fun box => .strokeRect (s.placeBox box)
  | .polygon points => [.polygon (points.map s.place)]
  | .polyline points => [.polyline (points.map s.place)]
  | .ellipse box => [.polygon (Ellipse.between (s.corners box).1 (s.corners box).2)]
  | .text text point => [.drawText text (s.place point)]
  | .save _ => [.saveState]
  | .restore index =>
    match s.savedFrom index with
    | [] => []
    | _ :: older => List.replicate (s.saved.length - older.length) .restoreState
  | _ => []

def plotter : Plotter Session Action := ⟨step, draw⟩

end Session

end Metafile.Plus
