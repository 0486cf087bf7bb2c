import Metafile.Gdi.Play
import Metafile.Wmf.Reading

/-! What a player does with WMF records, step by step. -/

namespace Metafile.Wmf

open Play Gdi.Play

variable {ω : Type} [Surface ω]

/-- Carries a record of a known kind out. -/
def carryOut (kind : Kind) (p : Bytes) : Play ω Unit := do
  match kind with
  | .setMapMode =>
    need p 2
    remap (.mode (.ofCode (p.u16At 0)))
  | .setWindowOrg =>
    need p 4
    remap (.windowOrigin (reversedPoint p 0))
  | .setWindowExt =>
    need p 4
    remap (.windowExtent (reversedSize p 0))
  | .setViewportOrg =>
    need p 4
    remap (.viewportOrigin (reversedPoint p 0))
  | .setViewportExt =>
    need p 4
    remap (.viewportExtent (reversedSize p 0))
  | .offsetWindowOrg =>
    need p 4
    remap (.offsetWindow (p.i16At 2) (p.i16At 0))
  | .offsetViewportOrg =>
    need p 4
    remap (.offsetViewport (p.i16At 2) (p.i16At 0))
  | .scaleWindowExt =>
    need p 8
    remap (.scaleWindow (reversedRatio p 4) (reversedRatio p 0))
  | .scaleViewportExt =>
    need p 8
    remap (.scaleViewport (reversedRatio p 4) (reversedRatio p 0))
  | .setBkColor =>
    need p 4
    setAttribute (.backColor (.ofColorref (p.u32At 0)))
  | .setTextColor =>
    need p 4
    setAttribute (.textColor (.ofColorref (p.u32At 0)))
  | .setBkMode =>
    need p 2
    setAttribute (.backMode (p.u16At 0))
  | .setRop2 =>
    need p 2
    setAttribute (.rasterOperation (p.u16At 0))
  | .setPolyFillMode =>
    need p 2
    setAttribute (.polyFillMode (p.u16At 0))
  | .setStretchBltMode =>
    need p 2
    setAttribute (.stretchMode (p.u16At 0))
  | .setTextAlign =>
    need p 2
    setAttribute (.textAlign (p.u16At 0))
  | .createPenIndirect =>
    need p 10
    create (.pen (penAt p 0))
  | .createBrushIndirect =>
    need p 6
    create (.brush (brushAt p 0))
  | .createFontIndirect =>
    need p 18
    create (.font (fontAt p 0))
  | .createPalette => create (.placeholder .palette)
  | .createPatternBrush | .dibCreatePatternBrush => create (.placeholder .patternBrush)
  | .createRegion => create (.placeholder .region)
  | .selectObject =>
    need p 2
    select (p.u16At 0)
  | .deleteObject =>
    need p 2
    delete (p.u16At 0)
  | .moveTo =>
    need p 4
    moveTo (drawnPoint p 0)
  | .lineTo =>
    need p 4
    lineTo (drawnPoint p 0)
  | .rectangle =>
    need p 8
    rectangle (drawnPoint p 4) (drawnPoint p 0)
  | .ellipse =>
    need p 8
    ellipse (drawnPoint p 4) (drawnPoint p 0)
  | .roundRect =>
    need p 12
    rectangle (drawnPoint p 8) (drawnPoint p 4)
  | .setPixel =>
    need p 8
    setPixel (drawnPoint p 4) (.ofColorref (p.u32At 0))
  | .polyline => polyline (← ofExcept (countedPoints p))
  | .polygon => polygon (← ofExcept (countedPoints p))
  | .polyPolygon => (← ofExcept (countedPolygons p)).forM polygon
  | .textOut =>
    need p 2
    let length := (p.i16At 0).toNat
    let padded := length + length % 2
    need p (2 + padded + 4)
    alignedText (Text.ofWindows1252 (p.slice 2 length)) (drawnPoint p (2 + padded))
  | .extTextOut =>
    need p 8
    let length := (p.i16At 4).toNat
    let options := p.u16At 6
    let boxed := options.testBit 1 || options.testBit 2
    let start := if boxed then 16 else 8
    -- The rectangle is passed over only if the text behind it is there as well.
    if boxed then need p (start + length)
    need p (start + length)
    alignedText (Text.ofWindows1252 (p.slice start length)) (drawnPoint p 0)
  | .saveDc => saveContext
  | .restoreDc =>
    need p 2
    restoreContext (p.i16At 0)
  | .eof | .realizePalette | .setPalEntries | .setRelabs | .setTextCharExtra | .invertRegion
  | .paintRegion | .selectClipRegion | .resizePalette | .setLayout | .setTextJustification
  | .offsetClipRgn | .fillRegion | .setMapperFlags | .selectPalette | .excludeClipRect
  | .intersectClipRect | .floodFill | .frameRegion | .animatePalette | .extFloodFill | .patBlt
  | .escape | .arc | .pie | .chord | .bitBlt | .dibBitBlt | .stretchBlt | .dibStretchBlt
  | .setDibToDev | .stretchDib => return

/-- Carries a record out and tells whether it has a kind. -/
def handle (r : Record) : Play ω Bool := do
  match Kind.ofCode? (r.opcode % 0x10000) with
  | none => return false
  | some kind =>
    carryOut kind r.payload
    return true

end Metafile.Wmf
