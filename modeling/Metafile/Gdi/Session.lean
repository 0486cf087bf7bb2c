import Metafile.Gdi.DeviceContext
import Metafile.Gdi.ObjectTable
import Metafile.Gdi.Path
import Metafile.Geometry.CoordinateMap
import Metafile.Surface.Plotter

/-! What WMF and EMF records do. A record stands for actions in logical
coordinates. `Session.step` tells how an action changes the session and
`Session.draw` what it draws, both from the session before it. -/

namespace Metafile.Gdi

inductive Action where
  | remap (change : CoordinateMap.Change)
  | setAttribute (value : Attribute)
  /-- Stores an object at the lowest free handle. -/
  | create (object : Object)
  | put (handle : Nat) (object : Object)
  | delete (handle : Nat)
  | select (handle : Nat)
  | moveTo (point : Point Float)
  | lineTo (point : Point Float)
  | rectangle (corner opposite : Point Float)
  | ellipse (corner opposite : Point Float)
  | setPixel (point : Point Float) (color : Color)
  | polyline (points : List (Point Float))
  | polygon (points : List (Point Float))
  /-- Lines from the current position through the points. -/
  | polylineTo (points : List (Point Float))
  /-- Cubic curves from the current position. -/
  | bezierTo (controls : List (Point Float))
  | text (text : String) (reference : Point Float)
  | saveContext
  | restoreContext (level : Int)
  | beginPath
  | endPath
  | closeFigure
  | discardPath
  | fillPath
  | strokePath
  | strokeAndFillPath

/-- What is put aside by `Action.saveContext`. -/
structure SavedContext where
  dc : DeviceContext
  map : CoordinateMap

structure Session where
  map : CoordinateMap
  dc : DeviceContext
  objects : ObjectTable
  path : Option Path
  /-- The contexts put aside, the newest one first. -/
  saved : List SavedContext

namespace Session

def initial (map : CoordinateMap) : Session := ⟨map, .initial, .empty, none, []⟩

def place (s : Session) (point : Point Float) : Point Float := s.map.apply point

def isRecording (s : Session) : Bool := s.path.any Path.recording

/-- Changes the path if it is recording. -/
def record (s : Session) (f : Path → Path) : Session :=
  { s with path := s.path.map fun path => if path.recording then f path else path }

def moveTo (s : Session) (point : Point Float) : Session :=
  { s with dc := { s.dc with position := point } }

section

variable (s : Session) (point : Point Float)

/-- The position is where it has been moved to. Of all that a session holds nothing else is
changed. -/
@[simp]
theorem position_moveTo : (s.moveTo point).dc.position = point := rfl

@[simp]
theorem place_moveTo : (s.moveTo point).place = s.place := rfl

@[simp]
theorem isRecording_moveTo : (s.moveTo point).isRecording = s.isRecording := rfl

@[simp]
theorem pen_moveTo : (s.moveTo point).dc.pen = s.dc.pen := rfl

/-- It makes no difference for the path when the position is changed. -/
theorem record_moveTo (f : Path → Path) :
    (s.moveTo point).record f = (s.record f).moveTo point := rfl

end

/-- The points of a polyline that starts at the current position, and the
position behind it. Without points nothing happens. -/
def continueTo (s : Session) (points : List (Point Float)) : Session :=
  match points.getLast? with
  | none => s
  | some last =>
    (s.record fun path => path.extend (s.place s.dc.position) (points.map s.place)).moveTo last

/-- The number of contexts that are left when the given level is restored. A
negative level counts back from the newest context and a positive one from the
oldest; a level that names no saved context is ignored. -/
def depthAfterRestore? (depth : Nat) (level : Int) : Option Nat :=
  let target := if level < 0 then depth + level else level - 1
  if level = 0 ∨ target < 0 ∨ depth ≤ target then none else some target.toNat

def restore (s : Session) (level : Int) : Session :=
  match depthAfterRestore? s.saved.length level with
  | none => s
  | some depth =>
    match s.saved.drop (s.saved.length - depth - 1) with
    | [] => s
    | context :: older => { s with dc := context.dc, map := context.map, saved := older }

/-- The corners of a box as a figure that ends where it starts. -/
def boxFigure (b : Box) : Figure :=
  [⟨b.x, b.y⟩, ⟨b.x + b.width, b.y⟩, ⟨b.x + b.width, b.y + b.height⟩, ⟨b.x, b.y + b.height⟩,
    ⟨b.x, b.y⟩]

/-- How an action changes the session. -/
def step (s : Session) : Action → Session
  | .remap change => { s with map := s.map.change change }
  | .setAttribute value => { s with dc := s.dc.set value }
  | .create object => { s with objects := s.objects.create object }
  | .put handle object => { s with objects := s.objects.put handle object }
  | .delete handle => { s with objects := s.objects.delete handle }
  | .select handle => { s with dc := s.dc.select (s.objects.resolve? handle) }
  | .moveTo point => (s.record fun path => path.push [s.place point]).moveTo point
  | .lineTo point => s.continueTo [point]
  | .rectangle corner opposite =>
    s.record fun path => path.push (boxFigure (.between (s.place corner) (s.place opposite)))
  | .ellipse corner opposite =>
    s.record fun path => path.push (Ellipse.between (s.place corner) (s.place opposite))
  | .setPixel _ _ => s
  | .polyline points =>
    if points.isEmpty then s else s.record fun path => path.push (points.map s.place)
  | .polygon points =>
    match points.map s.place with
    | [] => s
    | first :: rest => s.record fun path => path.push (first :: rest ++ [first])
  | .polylineTo points => s.continueTo points
  | .bezierTo controls => s.continueTo (Bezier.chain s.dc.position controls)
  | .text _ _ => s
  | .saveContext => { s with saved := ⟨s.dc, s.map⟩ :: s.saved }
  | .restoreContext level => s.restore level
  | .beginPath => { s with path := some .opened }
  | .endPath => { s with path := s.path.map fun path => { path with recording := false } }
  | .closeFigure => { s with path := s.path.map Path.closeFigure }
  | .discardPath => { s with path := none }
  | .fillPath => { s with path := none }
  | .strokePath => { s with path := none }
  | .strokeAndFillPath => { s with path := none }

/-- The stroke style of the pen. A pen that draws nothing is a transparent stroke
with the line width left as it was. -/
def penCalls (s : Session) : List Call :=
  if s.dc.pen.isNull then [.setStrokeColor .transparent]
  else
    [.setStrokeColor s.dc.pen.color,
      .setLineWidth (visibleWidth (s.map.scaleLength s.dc.pen.width).abs)]

/-- The style of the pen does not depend on the position, so that it may be asked for before or
behind a move. -/
@[simp]
theorem penCalls_moveTo (s : Session) (point : Point Float) :
    (s.moveTo point).penCalls = s.penCalls := rfl

def brushCalls (s : Session) : List Call :=
  [.setFillColor (if s.dc.brush.isNull then .transparent else s.dc.brush.color)]

/-- Calls in the stroke style of the pen, left out if it draws nothing. -/
def stroked (s : Session) (calls : List Call) : List Call :=
  s.penCalls ++ if s.dc.pen.isNull then [] else calls

/-- Calls in the fill style of the brush, left out if it paints nothing. -/
def filled (s : Session) (calls : List Call) : List Call :=
  s.brushCalls ++ if s.dc.brush.isNull then [] else calls

/-- The height of text in a font without a usable height. -/
def standardTextSize : Float := 12

def fontCalls (s : Session) : List Call :=
  match s.dc.font with
  | none => []
  | some font =>
    let size := (s.map.scaleLength (Float.ofInt font.height)).abs
    [.setFont font.face (if 0 < size then size else standardTextSize)]

def drawLinesTo (s : Session) (points : List (Point Float)) : List Call :=
  if points.isEmpty then [] else s.stroked [.polyline ((s.dc.position :: points).map s.place)]

/-- What an action draws outside a path, or in spite of one. -/
def drawShape (s : Session) : Action → List Call
  | .moveTo point => [.moveTo (s.place point)]
  | .lineTo point =>
    s.penCalls ++ [.moveTo (s.place s.dc.position), .lineTo (s.place point), .strokePath]
  | .rectangle corner opposite =>
    let box := Box.between (s.place corner) (s.place opposite)
    s.filled [.fillRect box] ++ s.stroked [.strokeRect box]
  | .ellipse corner opposite =>
    s.brushCalls ++ s.penCalls ++
      [.polygon (Ellipse.between (s.place corner) (s.place opposite))]
  | .polyline points => if points.isEmpty then [] else s.stroked [.polyline (points.map s.place)]
  | .polygon points =>
    if points.isEmpty then []
    else s.brushCalls ++ s.penCalls ++ [.polygon (points.map s.place)]
  | .polylineTo points => s.drawLinesTo points
  | .bezierTo controls => s.drawLinesTo (Bezier.chain s.dc.position controls)
  | _ => []

/-- What an action draws. Shapes go into a path that is recording and are not
drawn then; pixels, text and the rendering of paths are drawn at once. -/
def draw (s : Session) : Action → List Call
  | .setPixel point color =>
    let corner := s.place point
    [.setFillColor color, .fillRect ⟨corner.x, corner.y, 1, 1⟩]
  | .text text reference =>
    let point := if s.dc.textFromPosition then s.dc.position else reference
    if text.isEmpty then []
    else s.fontCalls ++ [.setFillColor s.dc.textColor, .drawText text (s.place point)]
  | .saveContext => [.saveState]
  | .restoreContext level =>
    match depthAfterRestore? s.saved.length level with
    | none => []
    | some depth => List.replicate (s.saved.length - depth) .restoreState
  | .fillPath =>
    match s.path with
    | none => []
    | some path =>
      s.brushCalls ++ .setStrokeColor .transparent :: (path.rendered 3).map Call.polygon
  | .strokePath =>
    match s.path with
    | none => []
    | some path => s.stroked ((path.rendered 2).map Call.polyline)
  | .strokeAndFillPath =>
    match s.path with
    | none => []
    | some path => s.brushCalls ++ s.penCalls ++ (path.rendered 2).map Call.polygon
  | action => if s.isRecording then [] else s.drawShape action

def plotter : Plotter Session Action := ⟨step, draw⟩

end Session

end Metafile.Gdi
