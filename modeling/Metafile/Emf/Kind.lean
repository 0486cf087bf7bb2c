/-! The kinds of EMF records. A record names its kind by a 32-bit type number. -/

namespace Metafile.Emf

inductive Kind where
  | header
  | polyBezier
  | polygon
  | polyline
  | polyBezierTo
  | polyLineTo
  | polyPolyline
  | polyPolygon
  | setWindowExtEx
  | setWindowOrgEx
  | setViewportExtEx
  | setViewportOrgEx
  | setBrushOrgEx
  | eof
  | setPixelV
  | setMapperFlags
  | setMapMode
  | setBkMode
  | setPolyFillMode
  | setRop2
  | setStretchBltMode
  | setTextAlign
  | setColorAdjustment
  | setTextColor
  | setBkColor
  | offsetClipRgn
  | moveToEx
  | setMetaRgn
  | excludeClipRect
  | intersectClipRect
  | scaleViewportExtEx
  | scaleWindowExtEx
  | saveDc
  | restoreDc
  | setWorldTransform
  | modifyWorldTransform
  | selectObject
  | createPen
  | createBrushIndirect
  | deleteObject
  | angleArc
  | ellipse
  | rectangle
  | roundRect
  | arc
  | chord
  | pie
  | selectPalette
  | createPalette
  | setPaletteEntries
  | resizePalette
  | realizePalette
  | extFloodFill
  | lineTo
  | arcTo
  | polyDraw
  | setArcDirection
  | setMiterLimit
  | beginPath
  | endPath
  | closeFigure
  | fillPath
  | strokeAndFillPath
  | strokePath
  | flattenPath
  | widenPath
  | selectClipPath
  | abortPath
  | comment
  | fillRgn
  | frameRgn
  | invertRgn
  | paintRgn
  | extSelectClipRgn
  | bitBlt
  | stretchBlt
  | maskBlt
  | plgBlt
  | setDiBitsToDevice
  | stretchDiBits
  | extCreateFontIndirectW
  | extTextOutA
  | extTextOutW
  | polyBezier16
  | polygon16
  | polyline16
  | polyBezierTo16
  | polyLineTo16
  | polyPolyline16
  | polyPolygon16
  | polyDraw16
  | createMonoBrush
  | createDibPatternBrushPt
  | extCreatePen
  | polyTextOutA
  | polyTextOutW
  | setIcmMode
  | createColorSpace
  | setColorSpace
  | deleteColorSpace
  | glsRecord
  | glsBoundedRecord
  | pixelFormat
  | drawEscape
  | extEscape
  | smallTextOut
  | forceUfiMapping
  | namedEscape
  | colorCorrectPalette
  | setIcmProfileA
  | setIcmProfileW
  | alphaBlend
  | setLayout
  | transparentBlt
  | gradientFill
  | setLinkedUfis
  | setTextJustification
  | colorMatchToTargetW
  | createColorSpaceW
deriving Repr, DecidableEq

namespace Kind

/-- Every kind of the format. -/
def all : List Kind :=
  [.header, .polyBezier, .polygon, .polyline, .polyBezierTo, .polyLineTo, .polyPolyline,
   .polyPolygon, .setWindowExtEx, .setWindowOrgEx, .setViewportExtEx, .setViewportOrgEx,
   .setBrushOrgEx, .eof, .setPixelV, .setMapperFlags, .setMapMode, .setBkMode, .setPolyFillMode,
   .setRop2, .setStretchBltMode, .setTextAlign, .setColorAdjustment, .setTextColor, .setBkColor,
   .offsetClipRgn, .moveToEx, .setMetaRgn, .excludeClipRect, .intersectClipRect,
   .scaleViewportExtEx, .scaleWindowExtEx, .saveDc, .restoreDc, .setWorldTransform,
   .modifyWorldTransform, .selectObject, .createPen, .createBrushIndirect, .deleteObject,
   .angleArc, .ellipse, .rectangle, .roundRect, .arc, .chord, .pie, .selectPalette,
   .createPalette, .setPaletteEntries, .resizePalette, .realizePalette, .extFloodFill, .lineTo,
   .arcTo, .polyDraw, .setArcDirection, .setMiterLimit, .beginPath, .endPath, .closeFigure,
   .fillPath, .strokeAndFillPath, .strokePath, .flattenPath, .widenPath, .selectClipPath,
   .abortPath, .comment, .fillRgn, .frameRgn, .invertRgn, .paintRgn, .extSelectClipRgn, .bitBlt,
   .stretchBlt, .maskBlt, .plgBlt, .setDiBitsToDevice, .stretchDiBits, .extCreateFontIndirectW,
   .extTextOutA, .extTextOutW, .polyBezier16, .polygon16, .polyline16, .polyBezierTo16,
   .polyLineTo16, .polyPolyline16, .polyPolygon16, .polyDraw16, .createMonoBrush,
   .createDibPatternBrushPt, .extCreatePen, .polyTextOutA, .polyTextOutW, .setIcmMode,
   .createColorSpace, .setColorSpace, .deleteColorSpace, .glsRecord, .glsBoundedRecord,
   .pixelFormat, .drawEscape, .extEscape, .smallTextOut, .forceUfiMapping, .namedEscape,
   .colorCorrectPalette, .setIcmProfileA, .setIcmProfileW, .alphaBlend, .setLayout,
   .transparentBlt, .gradientFill, .setLinkedUfis, .setTextJustification, .colorMatchToTargetW,
   .createColorSpaceW]

/-- The number that stands for a kind in a file. -/
def code : Kind → Nat
  | header => 1
  | polyBezier => 2
  | polygon => 3
  | polyline => 4
  | polyBezierTo => 5
  | polyLineTo => 6
  | polyPolyline => 7
  | polyPolygon => 8
  | setWindowExtEx => 9
  | setWindowOrgEx => 10
  | setViewportExtEx => 11
  | setViewportOrgEx => 12
  | setBrushOrgEx => 13
  | eof => 14
  | setPixelV => 15
  | setMapperFlags => 16
  | setMapMode => 17
  | setBkMode => 18
  | setPolyFillMode => 19
  | setRop2 => 20
  | setStretchBltMode => 21
  | setTextAlign => 22
  | setColorAdjustment => 23
  | setTextColor => 24
  | setBkColor => 25
  | offsetClipRgn => 26
  | moveToEx => 27
  | setMetaRgn => 28
  | excludeClipRect => 29
  | intersectClipRect => 30
  | scaleViewportExtEx => 31
  | scaleWindowExtEx => 32
  | saveDc => 33
  | restoreDc => 34
  | setWorldTransform => 35
  | modifyWorldTransform => 36
  | selectObject => 37
  | createPen => 38
  | createBrushIndirect => 39
  | deleteObject => 40
  | angleArc => 41
  | ellipse => 42
  | rectangle => 43
  | roundRect => 44
  | arc => 45
  | chord => 46
  | pie => 47
  | selectPalette => 48
  | createPalette => 49
  | setPaletteEntries => 50
  | resizePalette => 51
  | realizePalette => 52
  | extFloodFill => 53
  | lineTo => 54
  | arcTo => 55
  | polyDraw => 56
  | setArcDirection => 57
  | setMiterLimit => 58
  | beginPath => 59
  | endPath => 60
  | closeFigure => 61
  | fillPath => 62
  | strokeAndFillPath => 63
  | strokePath => 64
  | flattenPath => 65
  | widenPath => 66
  | selectClipPath => 67
  | abortPath => 68
  | comment => 70
  | fillRgn => 71
  | frameRgn => 72
  | invertRgn => 73
  | paintRgn => 74
  | extSelectClipRgn => 75
  | bitBlt => 76
  | stretchBlt => 77
  | maskBlt => 78
  | plgBlt => 79
  | setDiBitsToDevice => 80
  | stretchDiBits => 81
  | extCreateFontIndirectW => 82
  | extTextOutA => 83
  | extTextOutW => 84
  | polyBezier16 => 85
  | polygon16 => 86
  | polyline16 => 87
  | polyBezierTo16 => 88
  | polyLineTo16 => 89
  | polyPolyline16 => 90
  | polyPolygon16 => 91
  | polyDraw16 => 92
  | createMonoBrush => 93
  | createDibPatternBrushPt => 94
  | extCreatePen => 95
  | polyTextOutA => 96
  | polyTextOutW => 97
  | setIcmMode => 98
  | createColorSpace => 99
  | setColorSpace => 100
  | deleteColorSpace => 101
  | glsRecord => 102
  | glsBoundedRecord => 103
  | pixelFormat => 104
  | drawEscape => 105
  | extEscape => 106
  | smallTextOut => 108
  | forceUfiMapping => 109
  | namedEscape => 110
  | colorCorrectPalette => 111
  | setIcmProfileA => 112
  | setIcmProfileW => 113
  | alphaBlend => 114
  | setLayout => 115
  | transparentBlt => 116
  | gradientFill => 118
  | setLinkedUfis => 119
  | setTextJustification => 120
  | colorMatchToTargetW => 121
  | createColorSpaceW => 122

/-- The name of a kind in the description of the format. -/
def label : Kind → String
  | header => "EMR_HEADER"
  | polyBezier => "EMR_POLYBEZIER"
  | polygon => "EMR_POLYGON"
  | polyline => "EMR_POLYLINE"
  | polyBezierTo => "EMR_POLYBEZIERTO"
  | polyLineTo => "EMR_POLYLINETO"
  | polyPolyline => "EMR_POLYPOLYLINE"
  | polyPolygon => "EMR_POLYPOLYGON"
  | setWindowExtEx => "EMR_SETWINDOWEXTEX"
  | setWindowOrgEx => "EMR_SETWINDOWORGEX"
  | setViewportExtEx => "EMR_SETVIEWPORTEXTEX"
  | setViewportOrgEx => "EMR_SETVIEWPORTORGEX"
  | setBrushOrgEx => "EMR_SETBRUSHORGEX"
  | eof => "EMR_EOF"
  | setPixelV => "EMR_SETPIXELV"
  | setMapperFlags => "EMR_SETMAPPERFLAGS"
  | setMapMode => "EMR_SETMAPMODE"
  | setBkMode => "EMR_SETBKMODE"
  | setPolyFillMode => "EMR_SETPOLYFILLMODE"
  | setRop2 => "EMR_SETROP2"
  | setStretchBltMode => "EMR_SETSTRETCHBLTMODE"
  | setTextAlign => "EMR_SETTEXTALIGN"
  | setColorAdjustment => "EMR_SETCOLORADJUSTMENT"
  | setTextColor => "EMR_SETTEXTCOLOR"
  | setBkColor => "EMR_SETBKCOLOR"
  | offsetClipRgn => "EMR_OFFSETCLIPRGN"
  | moveToEx => "EMR_MOVETOEX"
  | setMetaRgn => "EMR_SETMETARGN"
  | excludeClipRect => "EMR_EXCLUDECLIPRECT"
  | intersectClipRect => "EMR_INTERSECTCLIPRECT"
  | scaleViewportExtEx => "EMR_SCALEVIEWPORTEXTEX"
  | scaleWindowExtEx => "EMR_SCALEWINDOWEXTEX"
  | saveDc => "EMR_SAVEDC"
  | restoreDc => "EMR_RESTOREDC"
  | setWorldTransform => "EMR_SETWORLDTRANSFORM"
  | modifyWorldTransform => "EMR_MODIFYWORLDTRANSFORM"
  | selectObject => "EMR_SELECTOBJECT"
  | createPen => "EMR_CREATEPEN"
  | createBrushIndirect => "EMR_CREATEBRUSHINDIRECT"
  | deleteObject => "EMR_DELETEOBJECT"
  | angleArc => "EMR_ANGLEARC"
  | ellipse => "EMR_ELLIPSE"
  | rectangle => "EMR_RECTANGLE"
  | roundRect => "EMR_ROUNDRECT"
  | arc => "EMR_ARC"
  | chord => "EMR_CHORD"
  | pie => "EMR_PIE"
  | selectPalette => "EMR_SELECTPALETTE"
  | createPalette => "EMR_CREATEPALETTE"
  | setPaletteEntries => "EMR_SETPALETTEENTRIES"
  | resizePalette => "EMR_RESIZEPALETTE"
  | realizePalette => "EMR_REALIZEPALETTE"
  | extFloodFill => "EMR_EXTFLOODFILL"
  | lineTo => "EMR_LINETO"
  | arcTo => "EMR_ARCTO"
  | polyDraw => "EMR_POLYDRAW"
  | setArcDirection => "EMR_SETARCDIRECTION"
  | setMiterLimit => "EMR_SETMITERLIMIT"
  | beginPath => "EMR_BEGINPATH"
  | endPath => "EMR_ENDPATH"
  | closeFigure => "EMR_CLOSEFIGURE"
  | fillPath => "EMR_FILLPATH"
  | strokeAndFillPath => "EMR_STROKEANDFILLPATH"
  | strokePath => "EMR_STROKEPATH"
  | flattenPath => "EMR_FLATTENPATH"
  | widenPath => "EMR_WIDENPATH"
  | selectClipPath => "EMR_SELECTCLIPPATH"
  | abortPath => "EMR_ABORTPATH"
  | comment => "EMR_COMMENT"
  | fillRgn => "EMR_FILLRGN"
  | frameRgn => "EMR_FRAMERGN"
  | invertRgn => "EMR_INVERTRGN"
  | paintRgn => "EMR_PAINTRGN"
  | extSelectClipRgn => "EMR_EXTSELECTCLIPRGN"
  | bitBlt => "EMR_BITBLT"
  | stretchBlt => "EMR_STRETCHBLT"
  | maskBlt => "EMR_MASKBLT"
  | plgBlt => "EMR_PLGBLT"
  | setDiBitsToDevice => "EMR_SETDIBITSTODEVICE"
  | stretchDiBits => "EMR_STRETCHDIBITS"
  | extCreateFontIndirectW => "EMR_EXTCREATEFONTINDIRECTW"
  | extTextOutA => "EMR_EXTTEXTOUTA"
  | extTextOutW => "EMR_EXTTEXTOUTW"
  | polyBezier16 => "EMR_POLYBEZIER16"
  | polygon16 => "EMR_POLYGON16"
  | polyline16 => "EMR_POLYLINE16"
  | polyBezierTo16 => "EMR_POLYBEZIERTO16"
  | polyLineTo16 => "EMR_POLYLINETO16"
  | polyPolyline16 => "EMR_POLYPOLYLINE16"
  | polyPolygon16 => "EMR_POLYPOLYGON16"
  | polyDraw16 => "EMR_POLYDRAW16"
  | createMonoBrush => "EMR_CREATEMONOBRUSH"
  | createDibPatternBrushPt => "EMR_CREATEDIBPATTERNBRUSHPT"
  | extCreatePen => "EMR_EXTCREATEPEN"
  | polyTextOutA => "EMR_POLYTEXTOUTA"
  | polyTextOutW => "EMR_POLYTEXTOUTW"
  | setIcmMode => "EMR_SETICMMODE"
  | createColorSpace => "EMR_CREATECOLORSPACE"
  | setColorSpace => "EMR_SETCOLORSPACE"
  | deleteColorSpace => "EMR_DELETECOLORSPACE"
  | glsRecord => "EMR_GLSRECORD"
  | glsBoundedRecord => "EMR_GLSBOUNDEDRECORD"
  | pixelFormat => "EMR_PIXELFORMAT"
  | drawEscape => "EMR_DRAWESCAPE"
  | extEscape => "EMR_EXTESCAPE"
  | smallTextOut => "EMR_SMALLTEXTOUT"
  | forceUfiMapping => "EMR_FORCEUFIMAPPING"
  | namedEscape => "EMR_NAMEDESCAPE"
  | colorCorrectPalette => "EMR_COLORCORRECTPALETTE"
  | setIcmProfileA => "EMR_SETICMPROFILEA"
  | setIcmProfileW => "EMR_SETICMPROFILEW"
  | alphaBlend => "EMR_ALPHABLEND"
  | setLayout => "EMR_SETLAYOUT"
  | transparentBlt => "EMR_TRANSPARENTBLT"
  | gradientFill => "EMR_GRADIENTFILL"
  | setLinkedUfis => "EMR_SETLINKEDUFIS"
  | setTextJustification => "EMR_SETTEXTJUSTIFICATION"
  | colorMatchToTargetW => "EMR_COLORMATCHTOTARGETW"
  | createColorSpaceW => "EMR_CREATECOLORSPACEW"

/-- The kind with a given number, if the format has one. -/
def ofCode? (code : Nat) : Option Kind := all.find? fun kind => kind.code == code

/-- The list that kinds are looked up in leaves none of them out. -/
@[simp]
theorem mem_all (kind : Kind) : kind ∈ all := by
  cases kind <;> decide

/-- A kind that is found for a number is one with this number. -/
@[grind →]
theorem code_of_ofCode? {code : Nat} {kind : Kind} (hKind : ofCode? code = some kind) :
    kind.code = code := by
  simpa [ofCode?] using List.find?_some hKind

end Kind

end Metafile.Emf
