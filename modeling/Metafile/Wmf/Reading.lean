import Metafile.Gdi.Session
import Metafile.Record.Reading
import Metafile.Text.Encoding
import Metafile.Wmf.Kind

/-! What WMF records ask for. Their parameters are 16-bit numbers and most records
store a vertical coordinate before the horizontal one, and the lower right
corner of a box before the upper left. -/

namespace Metafile.Wmf

open Gdi

/-- The point stored with its vertical coordinate first. -/
def reversedPoint (p : Bytes) (start : Nat) : Point Int :=
  ⟨p.i16At (start + 2), p.i16At start⟩

/-- A reversed point in the numbers of the drawing. -/
def drawnPoint (p : Bytes) (start : Nat) : Point Float := .ofInts (reversedPoint p start)

/-- The extent stored with its height first. -/
def reversedSize (p : Bytes) (start : Nat) : Size Int := ⟨p.i16At (start + 2), p.i16At start⟩

/-- The ratio stored with its denominator first. -/
def reversedRatio (p : Bytes) (start : Nat) : Ratio := ⟨p.i16At (start + 2), p.i16At start⟩

def penAt (p : Bytes) (start : Nat) : Pen :=
  ⟨p.u16At start, Float.ofInt (p.i16At (start + 2)), .ofColorref (p.u32At (start + 6))⟩

/-- A brush. Its hatch may be cut off and is zero then. -/
def brushAt (p : Bytes) (start : Nat) : Brush :=
  ⟨p.u16At start, .ofColorref (p.u32At (start + 2)), p.u16At (start + 6)⟩

/-- A font. Its face is named in at most 32 bytes up to the first zero, and only
as many of them as the record has. -/
def fontAt (p : Bytes) (start : Nat) : Font where
  height := p.i16At start
  weight := p.i16At (start + 8)
  italic := p.u8At (start + 10) != 0
  face := Text.ofWindows1252 ((p.slice (start + 18) 32).takeWhile (· != 0))

/-- The points behind a signed count. -/
def countedPoints (p : Bytes) : Except Fault (List (Point Float)) := do
  p.need 2
  let count := p.i16At 0
  if count < 0 then throw (.negativeCount count)
  p.need (2 + 4 * count.toNat)
  return Layout.shortPoint.list p 2 count.toNat

/-- Polygons: their number, the number of points of each, and the points. -/
def countedPolygons (p : Bytes) : Except Fault (List (List (Point Float))) := do
  p.need 2
  let polygons := p.u16At 0
  p.need (2 + 2 * polygons)
  let counts := Layout.word.list p 2 polygons
  p.need (2 + 2 * polygons + 4 * Layout.total counts)
  return Layout.shortPoint.lists p (2 + 2 * polygons) counts

/-- Text in front of its reference point, padded to whole words. A negative length
stands for no text. -/
def textOut (p : Bytes) : Except Fault Action := do
  p.need 2
  let length := (p.i16At 0).toNat
  let padded := length + length % 2
  p.need (2 + padded + 4)
  return .text (Text.ofWindows1252 (p.slice 2 length)) (drawnPoint p (2 + padded))

/-- Text behind its reference point. Options for an opaque or clipped background
put a rectangle in front of the text. -/
def extTextOut (p : Bytes) : Except Fault Action := do
  p.need 8
  let length := (p.i16At 4).toNat
  let options := p.u16At 6
  let start := if options.testBit 1 || options.testBit 2 then 16 else 8
  p.need (start + length)
  return .text (Text.ofWindows1252 (p.slice start length)) (drawnPoint p 0)

/-- What a record of a known kind asks for. Kinds that are not named here have no
effect on the drawing. -/
def actions (kind : Kind) (p : Bytes) : Except Fault (List Action) := do
  match kind with
  | .setMapMode => p.need 2; return [.remap (.mode (.ofCode (p.u16At 0)))]
  | .setWindowOrg => p.need 4; return [.remap (.windowOrigin (reversedPoint p 0))]
  | .setWindowExt => p.need 4; return [.remap (.windowExtent (reversedSize p 0))]
  | .setViewportOrg => p.need 4; return [.remap (.viewportOrigin (reversedPoint p 0))]
  | .setViewportExt => p.need 4; return [.remap (.viewportExtent (reversedSize p 0))]
  | .offsetWindowOrg => p.need 4; return [.remap (.offsetWindow (p.i16At 2) (p.i16At 0))]
  | .offsetViewportOrg => p.need 4; return [.remap (.offsetViewport (p.i16At 2) (p.i16At 0))]
  | .scaleWindowExt =>
    p.need 8
    return [.remap (.scaleWindow (reversedRatio p 4) (reversedRatio p 0))]
  | .scaleViewportExt =>
    p.need 8
    return [.remap (.scaleViewport (reversedRatio p 4) (reversedRatio p 0))]
  | .setBkColor => p.need 4; return [.setAttribute (.backColor (.ofColorref (p.u32At 0)))]
  | .setTextColor => p.need 4; return [.setAttribute (.textColor (.ofColorref (p.u32At 0)))]
  | .setBkMode => p.need 2; return [.setAttribute (.backMode (p.u16At 0))]
  | .setRop2 => p.need 2; return [.setAttribute (.rasterOperation (p.u16At 0))]
  | .setPolyFillMode => p.need 2; return [.setAttribute (.polyFillMode (p.u16At 0))]
  | .setStretchBltMode => p.need 2; return [.setAttribute (.stretchMode (p.u16At 0))]
  | .setTextAlign => p.need 2; return [.setAttribute (.textAlign (p.u16At 0))]
  | .createPenIndirect => p.need 10; return [.create (.pen (penAt p 0))]
  | .createBrushIndirect => p.need 6; return [.create (.brush (brushAt p 0))]
  | .createFontIndirect => p.need 18; return [.create (.font (fontAt p 0))]
  | .createPalette => return [.create (.placeholder .palette)]
  | .createPatternBrush => return [.create (.placeholder .patternBrush)]
  | .dibCreatePatternBrush => return [.create (.placeholder .patternBrush)]
  | .createRegion => return [.create (.placeholder .region)]
  | .selectObject => p.need 2; return [.select (p.u16At 0)]
  | .deleteObject => p.need 2; return [.delete (p.u16At 0)]
  | .moveTo => p.need 4; return [.moveTo (drawnPoint p 0)]
  | .lineTo => p.need 4; return [.lineTo (drawnPoint p 0)]
  | .rectangle => p.need 8; return [.rectangle (drawnPoint p 4) (drawnPoint p 0)]
  | .ellipse => p.need 8; return [.ellipse (drawnPoint p 4) (drawnPoint p 0)]
  -- The radii of the corners come first and are not drawn.
  | .roundRect => p.need 12; return [.rectangle (drawnPoint p 8) (drawnPoint p 4)]
  | .setPixel => p.need 8; return [.setPixel (drawnPoint p 4) (.ofColorref (p.u32At 0))]
  | .polyline => return [.polyline (← countedPoints p)]
  | .polygon => return [.polygon (← countedPoints p)]
  | .polyPolygon => return (← countedPolygons p).map Action.polygon
  | .textOut => return [← textOut p]
  | .extTextOut => return [← extTextOut p]
  | .saveDc => return [.saveContext]
  | .restoreDc => p.need 2; return [.restoreContext (p.i16At 0)]
  | _ => return []

/-- What a record asks for. Only the low 16 bits of its opcode name its kind. -/
def reading (r : Record) : Reading Action :=
  match Kind.ofCode? (r.opcode % 0x10000) with
  | none => .unhandled
  | some kind => .ofExcept (actions kind r.payload)

end Metafile.Wmf
