/-! The kinds of WMF records. A record names its kind by a 16-bit function number. -/

namespace Metafile.Wmf

inductive Kind where
  | eof
  | realizePalette
  | setPalEntries
  | setBkMode
  | setMapMode
  | setRop2
  | setRelabs
  | setPolyFillMode
  | setStretchBltMode
  | setTextCharExtra
  | restoreDc
  | invertRegion
  | paintRegion
  | selectClipRegion
  | selectObject
  | setTextAlign
  | resizePalette
  | dibCreatePatternBrush
  | setLayout
  | deleteObject
  | createPatternBrush
  | setBkColor
  | setTextColor
  | setTextJustification
  | setWindowOrg
  | setWindowExt
  | setViewportOrg
  | setViewportExt
  | offsetWindowOrg
  | offsetViewportOrg
  | lineTo
  | moveTo
  | offsetClipRgn
  | fillRegion
  | setMapperFlags
  | selectPalette
  | createPenIndirect
  | createFontIndirect
  | createBrushIndirect
  | polygon
  | polyline
  | scaleWindowExt
  | scaleViewportExt
  | excludeClipRect
  | intersectClipRect
  | ellipse
  | floodFill
  | rectangle
  | setPixel
  | frameRegion
  | animatePalette
  | textOut
  | polyPolygon
  | extFloodFill
  | roundRect
  | patBlt
  | escape
  | createRegion
  | arc
  | pie
  | chord
  | bitBlt
  | dibBitBlt
  | extTextOut
  | stretchBlt
  | dibStretchBlt
  | setDibToDev
  | stretchDib
  | saveDc
  | createPalette
deriving Repr, DecidableEq

namespace Kind

/-- Every kind of the format. -/
def all : List Kind :=
  [.eof, .realizePalette, .setPalEntries, .setBkMode, .setMapMode, .setRop2, .setRelabs,
   .setPolyFillMode, .setStretchBltMode, .setTextCharExtra, .restoreDc, .invertRegion,
   .paintRegion, .selectClipRegion, .selectObject, .setTextAlign, .resizePalette,
   .dibCreatePatternBrush, .setLayout, .deleteObject, .createPatternBrush, .setBkColor,
   .setTextColor, .setTextJustification, .setWindowOrg, .setWindowExt, .setViewportOrg,
   .setViewportExt, .offsetWindowOrg, .offsetViewportOrg, .lineTo, .moveTo, .offsetClipRgn,
   .fillRegion, .setMapperFlags, .selectPalette, .createPenIndirect, .createFontIndirect,
   .createBrushIndirect, .polygon, .polyline, .scaleWindowExt, .scaleViewportExt,
   .excludeClipRect, .intersectClipRect, .ellipse, .floodFill, .rectangle, .setPixel,
   .frameRegion, .animatePalette, .textOut, .polyPolygon, .extFloodFill, .roundRect, .patBlt,
   .escape, .createRegion, .arc, .pie, .chord, .bitBlt, .dibBitBlt, .extTextOut, .stretchBlt,
   .dibStretchBlt, .setDibToDev, .stretchDib, .saveDc, .createPalette]

/-- The number that stands for a kind in a file. -/
def code : Kind → Nat
  | eof => 0x0000
  | realizePalette => 0x0035
  | setPalEntries => 0x0037
  | setBkMode => 0x0102
  | setMapMode => 0x0103
  | setRop2 => 0x0104
  | setRelabs => 0x0105
  | setPolyFillMode => 0x0106
  | setStretchBltMode => 0x0107
  | setTextCharExtra => 0x0108
  | restoreDc => 0x0127
  | invertRegion => 0x012A
  | paintRegion => 0x012B
  | selectClipRegion => 0x012C
  | selectObject => 0x012D
  | setTextAlign => 0x012E
  | resizePalette => 0x0139
  | dibCreatePatternBrush => 0x0142
  | setLayout => 0x0149
  | deleteObject => 0x01F0
  | createPatternBrush => 0x01F9
  | setBkColor => 0x0201
  | setTextColor => 0x0209
  | setTextJustification => 0x020A
  | setWindowOrg => 0x020B
  | setWindowExt => 0x020C
  | setViewportOrg => 0x020D
  | setViewportExt => 0x020E
  | offsetWindowOrg => 0x020F
  | offsetViewportOrg => 0x0211
  | lineTo => 0x0213
  | moveTo => 0x0214
  | offsetClipRgn => 0x0220
  | fillRegion => 0x0228
  | setMapperFlags => 0x0231
  | selectPalette => 0x0234
  | createPenIndirect => 0x02FA
  | createFontIndirect => 0x02FB
  | createBrushIndirect => 0x02FC
  | polygon => 0x0324
  | polyline => 0x0325
  | scaleWindowExt => 0x0410
  | scaleViewportExt => 0x0412
  | excludeClipRect => 0x0415
  | intersectClipRect => 0x0416
  | ellipse => 0x0418
  | floodFill => 0x0419
  | rectangle => 0x041B
  | setPixel => 0x041F
  | frameRegion => 0x0429
  | animatePalette => 0x0436
  | textOut => 0x0521
  | polyPolygon => 0x0538
  | extFloodFill => 0x0548
  | roundRect => 0x061C
  | patBlt => 0x061D
  | escape => 0x0626
  | createRegion => 0x06FF
  | arc => 0x0817
  | pie => 0x081A
  | chord => 0x0830
  | bitBlt => 0x0922
  | dibBitBlt => 0x0940
  | extTextOut => 0x0A32
  | stretchBlt => 0x0B23
  | dibStretchBlt => 0x0B41
  | setDibToDev => 0x0D33
  | stretchDib => 0x0F43
  | saveDc => 0x001E
  | createPalette => 0x00F7

/-- The name of a kind in the description of the format. -/
def label : Kind → String
  | eof => "META_EOF"
  | realizePalette => "META_REALIZEPALETTE"
  | setPalEntries => "META_SETPALENTRIES"
  | setBkMode => "META_SETBKMODE"
  | setMapMode => "META_SETMAPMODE"
  | setRop2 => "META_SETROP2"
  | setRelabs => "META_SETRELABS"
  | setPolyFillMode => "META_SETPOLYFILLMODE"
  | setStretchBltMode => "META_SETSTRETCHBLTMODE"
  | setTextCharExtra => "META_SETTEXTCHAREXTRA"
  | restoreDc => "META_RESTOREDC"
  | invertRegion => "META_INVERTREGION"
  | paintRegion => "META_PAINTREGION"
  | selectClipRegion => "META_SELECTCLIPREGION"
  | selectObject => "META_SELECTOBJECT"
  | setTextAlign => "META_SETTEXTALIGN"
  | resizePalette => "META_RESIZEPALETTE"
  | dibCreatePatternBrush => "META_DIBCREATEPATTERNBRUSH"
  | setLayout => "META_SETLAYOUT"
  | deleteObject => "META_DELETEOBJECT"
  | createPatternBrush => "META_CREATEPATTERNBRUSH"
  | setBkColor => "META_SETBKCOLOR"
  | setTextColor => "META_SETTEXTCOLOR"
  | setTextJustification => "META_SETTEXTJUSTIFICATION"
  | setWindowOrg => "META_SETWINDOWORG"
  | setWindowExt => "META_SETWINDOWEXT"
  | setViewportOrg => "META_SETVIEWPORTORG"
  | setViewportExt => "META_SETVIEWPORTEXT"
  | offsetWindowOrg => "META_OFFSETWINDOWORG"
  | offsetViewportOrg => "META_OFFSETVIEWPORTORG"
  | lineTo => "META_LINETO"
  | moveTo => "META_MOVETO"
  | offsetClipRgn => "META_OFFSETCLIPRGN"
  | fillRegion => "META_FILLREGION"
  | setMapperFlags => "META_SETMAPPERFLAGS"
  | selectPalette => "META_SELECTPALETTE"
  | createPenIndirect => "META_CREATEPENINDIRECT"
  | createFontIndirect => "META_CREATEFONTINDIRECT"
  | createBrushIndirect => "META_CREATEBRUSHINDIRECT"
  | polygon => "META_POLYGON"
  | polyline => "META_POLYLINE"
  | scaleWindowExt => "META_SCALEWINDOWEXT"
  | scaleViewportExt => "META_SCALEVIEWPORTEXT"
  | excludeClipRect => "META_EXCLUDECLIPRECT"
  | intersectClipRect => "META_INTERSECTCLIPRECT"
  | ellipse => "META_ELLIPSE"
  | floodFill => "META_FLOODFILL"
  | rectangle => "META_RECTANGLE"
  | setPixel => "META_SETPIXEL"
  | frameRegion => "META_FRAMEREGION"
  | animatePalette => "META_ANIMATEPALETTE"
  | textOut => "META_TEXTOUT"
  | polyPolygon => "META_POLYPOLYGON"
  | extFloodFill => "META_EXTFLOODFILL"
  | roundRect => "META_ROUNDRECT"
  | patBlt => "META_PATBLT"
  | escape => "META_ESCAPE"
  | createRegion => "META_CREATEREGION"
  | arc => "META_ARC"
  | pie => "META_PIE"
  | chord => "META_CHORD"
  | bitBlt => "META_BITBLT"
  | dibBitBlt => "META_DIBBITBLT"
  | extTextOut => "META_EXTTEXTOUT"
  | stretchBlt => "META_STRETCHBLT"
  | dibStretchBlt => "META_DIBSTRETCHBLT"
  | setDibToDev => "META_SETDIBTODEV"
  | stretchDib => "META_STRETCHDIB"
  | saveDc => "META_SAVEDC"
  | createPalette => "META_CREATEPALETTE"

/-- The kind with a given number, if the format has one. -/
def ofCode? (code : Nat) : Option Kind := all.find? fun kind => kind.code == code

/-- The list that kinds are looked up in leaves none of them out. -/
@[simp]
theorem mem_all (kind : Kind) : kind ∈ all := by
  cases kind <;> decide

/-- A kind that is found for a number is one with this number. -/
@[grind →]
theorem code_of_ofCode? {code : Nat} {kind : Kind} (hKind : ofCode? code = some kind) :
    kind.code = code := by
  simpa [ofCode?] using List.find?_some hKind

end Kind

end Metafile.Wmf
