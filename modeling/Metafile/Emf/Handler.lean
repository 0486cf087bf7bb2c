import Metafile.Emf.Reading
import Metafile.Gdi.Play

/-! What a player does with EMF records, step by step. -/

namespace Metafile.Emf

open Play Gdi.Play

variable {ω : Type} [Surface ω]

/-- A chain of cubic curves that starts at the first of the points. -/
def bezierThrough (points : List (Point Float)) : Play ω Unit := do
  match points with
  | [] => return
  | start :: controls => polyline (Bezier.flatten start controls)

/-- A chain of cubic curves that starts at the current position. -/
def bezierTo (controls : List (Point Float)) : Play ω Unit := do
  let flattened := Bezier.flatten (← session).dc.position controls
  polylineTo flattened.tail

/-- Text whose bytes lie somewhere behind the fixed part of the record. -/
def placedText (wide : Bool) (p : Bytes) : Play ω Unit := do
  need p 44
  let reference := drawnPoint p 28
  let characters := p.u32At 36
  let place := p.u32At 40
  if place < 8 then throw .textInsideHeader
  let start := place - 8
  let length := if wide then 2 * characters else characters
  if p.size < start + length then throw (.textPastRecord characters place)
  let bytes := p.slice start length
  alignedText (if wide then Text.ofUtf16 bytes else Text.ofWindows1252 bytes) reference

/-- Carries a record of a known kind out. -/
def carryOut (kind : Kind) (p : Bytes) : Play ω Unit := do
  match kind with
  | .setMapMode =>
    need p 4
    remap (.mode (.ofCode (p.u32At 0)))
  | .setWindowOrgEx =>
    need p 8
    remap (.windowOrigin (pointAt p 0))
  | .setWindowExtEx =>
    need p 8
    remap (.windowExtent (sizeAt p 0))
  | .setViewportOrgEx =>
    need p 8
    remap (.viewportOrigin (pointAt p 0))
  | .setViewportExtEx =>
    need p 8
    remap (.viewportExtent (sizeAt p 0))
  | .scaleWindowExtEx =>
    need p 16
    remap (.scaleWindow (ratioAt p 0) (ratioAt p 8))
  | .scaleViewportExtEx =>
    need p 16
    remap (.scaleViewport (ratioAt p 0) (ratioAt p 8))
  | .setTextColor =>
    need p 4
    setAttribute (.textColor (colorAt p 0))
  | .setBkColor =>
    need p 4
    setAttribute (.backColor (colorAt p 0))
  | .setBkMode =>
    need p 4
    setAttribute (.backMode (p.u32At 0))
  | .setPolyFillMode =>
    need p 4
    setAttribute (.polyFillMode (p.u32At 0))
  | .setRop2 =>
    need p 4
    setAttribute (.rasterOperation (p.u32At 0))
  | .setStretchBltMode =>
    need p 4
    setAttribute (.stretchMode (p.u32At 0))
  | .setTextAlign =>
    need p 4
    setAttribute (.textAlign (p.u32At 0))
  | .createPen =>
    need p 20
    put (p.u32At 0) (.pen (penAt p 4))
  | .extCreatePen =>
    need p 36
    put (p.u32At 0) (.pen (extendedPenAt p 20))
  | .createBrushIndirect =>
    need p 16
    put (p.u32At 0) (.brush (brushAt p 4))
  | .extCreateFontIndirectW =>
    need p 96
    put (p.u32At 0) (.font (fontAt p 4))
  | .createMonoBrush | .createDibPatternBrushPt =>
    need p 4
    put (p.u32At 0) (.placeholder .patternBrush)
  | .createPalette =>
    need p 4
    put (p.u32At 0) (.placeholder .palette)
  | .createColorSpace | .createColorSpaceW =>
    need p 4
    put (p.u32At 0) (.placeholder .colorSpace)
  | .selectObject =>
    need p 4
    select (p.u32At 0)
  | .deleteObject | .deleteColorSpace =>
    need p 4
    delete (p.u32At 0)
  | .moveToEx =>
    need p 8
    moveTo (drawnPoint p 0)
  | .lineTo =>
    need p 8
    lineTo (drawnPoint p 0)
  | .rectangle | .roundRect =>
    need p 16
    rectangle (drawnPoint p 0) (drawnPoint p 8)
  | .ellipse =>
    need p 16
    ellipse (drawnPoint p 0) (drawnPoint p 8)
  | .setPixelV =>
    need p 12
    setPixel (drawnPoint p 0) (colorAt p 8)
  | .polyline => polyline (← ofExcept (points .longPoint p))
  | .polyline16 => polyline (← ofExcept (points .shortPoint p))
  | .polygon => polygon (← ofExcept (points .longPoint p))
  | .polygon16 => polygon (← ofExcept (points .shortPoint p))
  | .polyLineTo => polylineTo (← ofExcept (points .longPoint p))
  | .polyLineTo16 => polylineTo (← ofExcept (points .shortPoint p))
  | .polyBezier => bezierThrough (← ofExcept (points .longPoint p))
  | .polyBezier16 => bezierThrough (← ofExcept (points .shortPoint p))
  | .polyBezierTo => bezierTo (← ofExcept (points .longPoint p))
  | .polyBezierTo16 => bezierTo (← ofExcept (points .shortPoint p))
  | .polyPolyline => (← ofExcept (pointGroups .longPoint p)).forM polyline
  | .polyPolyline16 => (← ofExcept (pointGroups .shortPoint p)).forM polyline
  | .polyPolygon => (← ofExcept (pointGroups .longPoint p)).forM polygon
  | .polyPolygon16 => (← ofExcept (pointGroups .shortPoint p)).forM polygon
  | .beginPath => setPath fun _ => some .opened
  | .endPath => setPath (Option.map fun path => { path with recording := false })
  | .closeFigure => setPath (Option.map Gdi.Path.closeFigure)
  | .abortPath | .selectClipPath => setPath fun _ => none
  | .fillPath => fillPath
  | .strokePath => strokePath
  | .strokeAndFillPath => strokeAndFillPath
  | .extTextOutA => placedText false p
  | .extTextOutW => placedText true p
  | .saveDc => saveContext
  | .restoreDc =>
    need p 4
    restoreContext (p.i32At 0)
  | .header | .eof | .comment | .setBrushOrgEx | .setMapperFlags | .setColorAdjustment
  | .offsetClipRgn | .setMetaRgn | .excludeClipRect | .intersectClipRect | .setWorldTransform
  | .modifyWorldTransform | .angleArc | .arc | .chord | .pie | .selectPalette | .setPaletteEntries
  | .resizePalette | .realizePalette | .extFloodFill | .arcTo | .polyDraw | .setArcDirection
  | .setMiterLimit | .flattenPath | .widenPath | .fillRgn | .frameRgn | .invertRgn | .paintRgn
  | .extSelectClipRgn | .bitBlt | .stretchBlt | .maskBlt | .plgBlt | .setDiBitsToDevice
  | .stretchDiBits | .polyDraw16 | .polyTextOutA | .polyTextOutW | .setIcmMode | .setColorSpace
  | .glsRecord | .glsBoundedRecord | .pixelFormat | .drawEscape | .extEscape | .smallTextOut
  | .forceUfiMapping | .namedEscape | .colorCorrectPalette | .setIcmProfileA | .setIcmProfileW
  | .alphaBlend | .setLayout | .transparentBlt | .gradientFill | .setLinkedUfis
  | .setTextJustification | .colorMatchToTargetW => return

/-- Carries a record out and tells whether it has a kind. -/
def handle (r : Record) : Play ω Bool := do
  match Kind.ofCode? r.opcode with
  | none => return false
  | some kind =>
    carryOut kind r.payload
    return true

end Metafile.Emf
