/-! The kinds of EMF+ records. A record names its kind by a 16-bit type number. -/

namespace Metafile.Plus

inductive Kind where
  | header
  | endOfFile
  | comment
  | getDc
  | multiFormatStart
  | multiFormatSection
  | multiFormatEnd
  | object
  | clear
  | fillRects
  | drawRects
  | fillPolygon
  | drawLines
  | fillEllipse
  | drawEllipse
  | fillPie
  | drawPie
  | drawArc
  | fillRegion
  | fillPath
  | drawPath
  | fillClosedCurve
  | drawClosedCurve
  | drawCurve
  | drawBeziers
  | drawImage
  | drawImagePoints
  | drawString
  | setRenderingOrigin
  | setAntiAliasMode
  | setTextRenderingHint
  | setTextContrast
  | setInterpolationMode
  | setPixelOffsetMode
  | setCompositingMode
  | setCompositingQuality
  | save
  | restore
  | beginContainer
  | beginContainerNoParams
  | endContainer
  | setWorldTransform
  | resetWorldTransform
  | multiplyWorldTransform
  | translateWorldTransform
  | scaleWorldTransform
  | rotateWorldTransform
  | setPageTransform
  | resetClip
  | setClipRect
  | setClipPath
  | setClipRegion
  | offsetClip
  | drawDriverString
  | strokeFillPath
  | serializableObject
  | setTsGraphics
  | setTsClip
deriving Repr, DecidableEq

namespace Kind

/-- Every kind of the format. -/
def all : List Kind :=
  [.header, .endOfFile, .comment, .getDc, .multiFormatStart, .multiFormatSection,
   .multiFormatEnd, .object, .clear, .fillRects, .drawRects, .fillPolygon, .drawLines,
   .fillEllipse, .drawEllipse, .fillPie, .drawPie, .drawArc, .fillRegion, .fillPath, .drawPath,
   .fillClosedCurve, .drawClosedCurve, .drawCurve, .drawBeziers, .drawImage, .drawImagePoints,
   .drawString, .setRenderingOrigin, .setAntiAliasMode, .setTextRenderingHint, .setTextContrast,
   .setInterpolationMode, .setPixelOffsetMode, .setCompositingMode, .setCompositingQuality,
   .save, .restore, .beginContainer, .beginContainerNoParams, .endContainer, .setWorldTransform,
   .resetWorldTransform, .multiplyWorldTransform, .translateWorldTransform, .scaleWorldTransform,
   .rotateWorldTransform, .setPageTransform, .resetClip, .setClipRect, .setClipPath,
   .setClipRegion, .offsetClip, .drawDriverString, .strokeFillPath, .serializableObject,
   .setTsGraphics, .setTsClip]

/-- The number that stands for a kind in a file. -/
def code : Kind → Nat
  | header => 0x4001
  | endOfFile => 0x4002
  | comment => 0x4003
  | getDc => 0x4004
  | multiFormatStart => 0x4005
  | multiFormatSection => 0x4006
  | multiFormatEnd => 0x4007
  | object => 0x4008
  | clear => 0x4009
  | fillRects => 0x400A
  | drawRects => 0x400B
  | fillPolygon => 0x400C
  | drawLines => 0x400D
  | fillEllipse => 0x400E
  | drawEllipse => 0x400F
  | fillPie => 0x4010
  | drawPie => 0x4011
  | drawArc => 0x4012
  | fillRegion => 0x4013
  | fillPath => 0x4014
  | drawPath => 0x4015
  | fillClosedCurve => 0x4016
  | drawClosedCurve => 0x4017
  | drawCurve => 0x4018
  | drawBeziers => 0x4019
  | drawImage => 0x401A
  | drawImagePoints => 0x401B
  | drawString => 0x401C
  | setRenderingOrigin => 0x401D
  | setAntiAliasMode => 0x401E
  | setTextRenderingHint => 0x401F
  | setTextContrast => 0x4020
  | setInterpolationMode => 0x4021
  | setPixelOffsetMode => 0x4022
  | setCompositingMode => 0x4023
  | setCompositingQuality => 0x4024
  | save => 0x4025
  | restore => 0x4026
  | beginContainer => 0x4027
  | beginContainerNoParams => 0x4028
  | endContainer => 0x4029
  | setWorldTransform => 0x402A
  | resetWorldTransform => 0x402B
  | multiplyWorldTransform => 0x402C
  | translateWorldTransform => 0x402D
  | scaleWorldTransform => 0x402E
  | rotateWorldTransform => 0x402F
  | setPageTransform => 0x4030
  | resetClip => 0x4031
  | setClipRect => 0x4032
  | setClipPath => 0x4033
  | setClipRegion => 0x4034
  | offsetClip => 0x4035
  | drawDriverString => 0x4036
  | strokeFillPath => 0x4037
  | serializableObject => 0x4038
  | setTsGraphics => 0x4039
  | setTsClip => 0x403A

/-- The name of a kind in the description of the format. -/
def label : Kind → String
  | header => "EmfPlusHeader"
  | endOfFile => "EmfPlusEndOfFile"
  | comment => "EmfPlusComment"
  | getDc => "EmfPlusGetDC"
  | multiFormatStart => "EmfPlusMultiFormatStart"
  | multiFormatSection => "EmfPlusMultiFormatSection"
  | multiFormatEnd => "EmfPlusMultiFormatEnd"
  | object => "EmfPlusObject"
  | clear => "EmfPlusClear"
  | fillRects => "EmfPlusFillRects"
  | drawRects => "EmfPlusDrawRects"
  | fillPolygon => "EmfPlusFillPolygon"
  | drawLines => "EmfPlusDrawLines"
  | fillEllipse => "EmfPlusFillEllipse"
  | drawEllipse => "EmfPlusDrawEllipse"
  | fillPie => "EmfPlusFillPie"
  | drawPie => "EmfPlusDrawPie"
  | drawArc => "EmfPlusDrawArc"
  | fillRegion => "EmfPlusFillRegion"
  | fillPath => "EmfPlusFillPath"
  | drawPath => "EmfPlusDrawPath"
  | fillClosedCurve => "EmfPlusFillClosedCurve"
  | drawClosedCurve => "EmfPlusDrawClosedCurve"
  | drawCurve => "EmfPlusDrawCurve"
  | drawBeziers => "EmfPlusDrawBeziers"
  | drawImage => "EmfPlusDrawImage"
  | drawImagePoints => "EmfPlusDrawImagePoints"
  | drawString => "EmfPlusDrawString"
  | setRenderingOrigin => "EmfPlusSetRenderingOrigin"
  | setAntiAliasMode => "EmfPlusSetAntiAliasMode"
  | setTextRenderingHint => "EmfPlusSetTextRenderingHint"
  | setTextContrast => "EmfPlusSetTextContrast"
  | setInterpolationMode => "EmfPlusSetInterpolationMode"
  | setPixelOffsetMode => "EmfPlusSetPixelOffsetMode"
  | setCompositingMode => "EmfPlusSetCompositingMode"
  | setCompositingQuality => "EmfPlusSetCompositingQuality"
  | save => "EmfPlusSave"
  | restore => "EmfPlusRestore"
  | beginContainer => "EmfPlusBeginContainer"
  | beginContainerNoParams => "EmfPlusBeginContainerNoParams"
  | endContainer => "EmfPlusEndContainer"
  | setWorldTransform => "EmfPlusSetWorldTransform"
  | resetWorldTransform => "EmfPlusResetWorldTransform"
  | multiplyWorldTransform => "EmfPlusMultiplyWorldTransform"
  | translateWorldTransform => "EmfPlusTranslateWorldTransform"
  | scaleWorldTransform => "EmfPlusScaleWorldTransform"
  | rotateWorldTransform => "EmfPlusRotateWorldTransform"
  | setPageTransform => "EmfPlusSetPageTransform"
  | resetClip => "EmfPlusResetClip"
  | setClipRect => "EmfPlusSetClipRect"
  | setClipPath => "EmfPlusSetClipPath"
  | setClipRegion => "EmfPlusSetClipRegion"
  | offsetClip => "EmfPlusOffsetClip"
  | drawDriverString => "EmfPlusDrawDriverString"
  | strokeFillPath => "EmfPlusStrokeFillPath"
  | serializableObject => "EmfPlusSerializableObject"
  | setTsGraphics => "EmfPlusSetTSGraphics"
  | setTsClip => "EmfPlusSetTSClip"

/-- The kind with a given number, if the format has one. -/
def ofCode? (code : Nat) : Option Kind := all.find? fun kind => kind.code == code

/-- The list that kinds are looked up in leaves none of them out. -/
@[simp]
theorem mem_all (kind : Kind) : kind ∈ all := by
  cases kind <;> decide

/-- A kind that is found for a number is one with this number. -/
@[grind →]
theorem code_of_ofCode? {code : Nat} {kind : Kind} (hKind : ofCode? code = some kind) :
    kind.code = code := by
  simpa [ofCode?] using List.find?_some hKind

end Kind

end Metafile.Plus
