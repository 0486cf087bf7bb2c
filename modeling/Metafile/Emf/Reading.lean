import Metafile.Emf.Kind
import Metafile.Gdi.Session
import Metafile.Record.Reading
import Metafile.Text.Encoding

/-! What EMF records ask for. Their parameters are 32-bit numbers; shapes with many
points also exist with 16-bit coordinates. -/

namespace Metafile.Emf

open Gdi

def pointAt (p : Bytes) (start : Nat) : Point Int := ⟨p.i32At start, p.i32At (start + 4)⟩

/-- A point in the numbers of the drawing. -/
def drawnPoint (p : Bytes) (start : Nat) : Point Float := .ofInts (pointAt p start)

def sizeAt (p : Bytes) (start : Nat) : Size Int := ⟨p.i32At start, p.i32At (start + 4)⟩

def ratioAt (p : Bytes) (start : Nat) : Ratio := ⟨p.i32At start, p.i32At (start + 4)⟩

def colorAt (p : Bytes) (start : Nat) : Color := .ofColorref (p.u32At start)

def penAt (p : Bytes) (start : Nat) : Pen :=
  ⟨p.u32At start, Float.ofInt (p.i32At (start + 4)), colorAt p (start + 12)⟩

/-- A pen with a brush of its own. It draws nothing if its brush paints nothing. -/
def extendedPenAt (p : Bytes) (start : Nat) : Pen where
  style := if p.u32At (start + 8) = Brush.nullStyle then Pen.nullStyle else p.u32At start
  width := (p.u32At (start + 4)).toFloat
  color := colorAt p (start + 12)

def brushAt (p : Bytes) (start : Nat) : Brush :=
  ⟨p.u32At start, colorAt p (start + 4), p.u32At (start + 8)⟩

/-- A font. Its face is named in 64 bytes up to the first NUL. -/
def fontAt (p : Bytes) (start : Nat) : Font where
  height := p.i32At start
  weight := p.i32At (start + 16)
  italic := p.u8At (start + 20) != 0
  face :=
    String.ofList ((Text.ofUtf16 (p.slice (start + 28) 64)).toList.takeWhile (· != '\x00'))

/-- Stores an object at the handle that a record names. Handles from `limit` on
are refused. -/
def storing (limit : Nat) (p : Bytes) (object : Object) : Except Fault (List Action) :=
  let handle := p.u32At 0
  if limit ≤ handle then .error (.handleOutside handle limit) else .ok [.put handle object]

/-- The bytes of the bounding box that comes before the points of a shape. -/
def boundsSize : Nat := 16

/-- The points of a shape behind their number. -/
def points (layout : Layout (Point Float)) (p : Bytes) : Except Fault (List (Point Float)) := do
  p.need (boundsSize + 4)
  let count := p.u32At boundsSize
  p.need (boundsSize + 4 + layout.size * count)
  return layout.list p (boundsSize + 4) count

/-- The points of several shapes: the number of shapes, the total number of
points, the number of points of each shape, and the points. -/
def pointGroups (layout : Layout (Point Float)) (p : Bytes) :
    Except Fault (List (List (Point Float))) := do
  p.need (boundsSize + 8)
  let shapes := p.u32At boundsSize
  let total := p.u32At (boundsSize + 4)
  let start := boundsSize + 8 + 4 * shapes
  p.need start
  let counts := Layout.dword.list p (boundsSize + 8) shapes
  if Layout.total counts ≠ total then throw (.countsDisagree total)
  p.need (start + layout.size * total)
  return layout.lists p start counts

/-- A chain of cubic curves. The first point is where it starts. -/
def bezier : List (Point Float) → List Action
  | [] => []
  | start :: controls => [.polyline (Bezier.flatten start controls)]

/-- Text at a reference point. The place of the text counts from the start of the
record, eight bytes before the payload, and the text must lie inside it. -/
def extTextOut (wide : Bool) (p : Bytes) : Except Fault Action := do
  p.need 44
  let characters := p.u32At 36
  let place := p.u32At 40
  if place < 8 then throw .textInsideHeader
  let length := if wide then 2 * characters else characters
  if p.size < place - 8 + length then throw (.textPastRecord characters place)
  let bytes := p.slice (place - 8) length
  return .text (if wide then Text.ofUtf16 bytes else Text.ofWindows1252 bytes) (drawnPoint p 28)

/-- What a record of a known kind asks for. Kinds that are not named here have no
effect on the drawing. -/
def actions (limit : Nat) (kind : Kind) (p : Bytes) : Except Fault (List Action) := do
  match kind with
  | .setMapMode => p.need 4; return [.remap (.mode (.ofCode (p.u32At 0)))]
  | .setWindowOrgEx => p.need 8; return [.remap (.windowOrigin (pointAt p 0))]
  | .setWindowExtEx => p.need 8; return [.remap (.windowExtent (sizeAt p 0))]
  | .setViewportOrgEx => p.need 8; return [.remap (.viewportOrigin (pointAt p 0))]
  | .setViewportExtEx => p.need 8; return [.remap (.viewportExtent (sizeAt p 0))]
  | .scaleWindowExtEx =>
    p.need 16
    return [.remap (.scaleWindow (ratioAt p 0) (ratioAt p 8))]
  | .scaleViewportExtEx =>
    p.need 16
    return [.remap (.scaleViewport (ratioAt p 0) (ratioAt p 8))]
  | .setTextColor => p.need 4; return [.setAttribute (.textColor (colorAt p 0))]
  | .setBkColor => p.need 4; return [.setAttribute (.backColor (colorAt p 0))]
  | .setBkMode => p.need 4; return [.setAttribute (.backMode (p.u32At 0))]
  | .setPolyFillMode => p.need 4; return [.setAttribute (.polyFillMode (p.u32At 0))]
  | .setRop2 => p.need 4; return [.setAttribute (.rasterOperation (p.u32At 0))]
  | .setStretchBltMode => p.need 4; return [.setAttribute (.stretchMode (p.u32At 0))]
  | .setTextAlign => p.need 4; return [.setAttribute (.textAlign (p.u32At 0))]
  | .createPen => p.need 20; storing limit p (.pen (penAt p 4))
  | .extCreatePen => p.need 36; storing limit p (.pen (extendedPenAt p 20))
  | .createBrushIndirect => p.need 16; storing limit p (.brush (brushAt p 4))
  | .extCreateFontIndirectW => p.need 96; storing limit p (.font (fontAt p 4))
  | .createMonoBrush => p.need 4; storing limit p (.placeholder .patternBrush)
  | .createDibPatternBrushPt => p.need 4; storing limit p (.placeholder .patternBrush)
  | .createPalette => p.need 4; storing limit p (.placeholder .palette)
  | .createColorSpace => p.need 4; storing limit p (.placeholder .colorSpace)
  | .createColorSpaceW => p.need 4; storing limit p (.placeholder .colorSpace)
  | .selectObject => p.need 4; return [.select (p.u32At 0)]
  | .deleteObject => p.need 4; return [.delete (p.u32At 0)]
  | .deleteColorSpace => p.need 4; return [.delete (p.u32At 0)]
  | .moveToEx => p.need 8; return [.moveTo (drawnPoint p 0)]
  | .lineTo => p.need 8; return [.lineTo (drawnPoint p 0)]
  | .rectangle => p.need 16; return [.rectangle (drawnPoint p 0) (drawnPoint p 8)]
  -- The radii of the corners come behind the box and are not drawn.
  | .roundRect => p.need 16; return [.rectangle (drawnPoint p 0) (drawnPoint p 8)]
  | .ellipse => p.need 16; return [.ellipse (drawnPoint p 0) (drawnPoint p 8)]
  | .setPixelV => p.need 12; return [.setPixel (drawnPoint p 0) (colorAt p 8)]
  | .polyline => return [.polyline (← points .longPoint p)]
  | .polyline16 => return [.polyline (← points .shortPoint p)]
  | .polygon => return [.polygon (← points .longPoint p)]
  | .polygon16 => return [.polygon (← points .shortPoint p)]
  | .polyLineTo => return [.polylineTo (← points .longPoint p)]
  | .polyLineTo16 => return [.polylineTo (← points .shortPoint p)]
  | .polyBezier => return bezier (← points .longPoint p)
  | .polyBezier16 => return bezier (← points .shortPoint p)
  | .polyBezierTo => return [.bezierTo (← points .longPoint p)]
  | .polyBezierTo16 => return [.bezierTo (← points .shortPoint p)]
  | .polyPolyline => return (← pointGroups .longPoint p).map Action.polyline
  | .polyPolyline16 => return (← pointGroups .shortPoint p).map Action.polyline
  | .polyPolygon => return (← pointGroups .longPoint p).map Action.polygon
  | .polyPolygon16 => return (← pointGroups .shortPoint p).map Action.polygon
  | .beginPath => return [.beginPath]
  | .endPath => return [.endPath]
  | .closeFigure => return [.closeFigure]
  | .abortPath => return [.discardPath]
  | .selectClipPath => return [.discardPath]
  | .fillPath => return [.fillPath]
  | .strokePath => return [.strokePath]
  | .strokeAndFillPath => return [.strokeAndFillPath]
  | .extTextOutA => return [← extTextOut false p]
  | .extTextOutW => return [← extTextOut true p]
  | .saveDc => return [.saveContext]
  | .restoreDc => p.need 4; return [.restoreContext (p.i32At 0)]
  | _ => return []

/-- What a record asks for in a file with the given number of handles. -/
def reading (limit : Nat) (r : Record) : Reading Action :=
  match Kind.ofCode? r.opcode with
  | none => .unhandled
  | some kind => .ofExcept (actions limit kind r.payload)

end Metafile.Emf
