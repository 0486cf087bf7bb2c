import Metafile.Color

/-! Graphics objects: what a record can create and a later one select. -/

namespace Metafile.Gdi

/-- A pen with its width in logical units. -/
structure Pen where
  style : Nat
  width : Float
  color : Color
deriving Repr

/-- The line style in the lowest four bits of a pen style that draws nothing. -/
def Pen.nullStyle : Nat := 5

def Pen.isNull (p : Pen) : Bool := p.style % 16 == nullStyle

structure Brush where
  style : Nat
  color : Color
  hatch : Nat
deriving Repr

/-- The style of a brush that paints nothing. -/
def Brush.nullStyle : Nat := 1

def Brush.isNull (b : Brush) : Bool := b.style == nullStyle

structure Font where
  height : Int
  weight : Int
  italic : Bool
  face : String
deriving Repr

/-- Objects that take a slot of the table and have no other effect. -/
inductive Placeholder where
  | palette
  | region
  | patternBrush
  | colorSpace
  | plusObject
deriving Repr, DecidableEq

def Placeholder.all : List Placeholder :=
  [palette, region, patternBrush, colorSpace, plusObject]

def Placeholder.label : Placeholder → String
  | palette => "palette"
  | region => "region"
  | patternBrush => "pattern brush"
  | colorSpace => "color space"
  | plusObject => "EMF+ object"

inductive Object where
  | pen (pen : Pen)
  | brush (brush : Brush)
  | font (font : Font)
  | placeholder (kind : Placeholder)
deriving Repr

namespace Object

/-- The least handle that names a stock object. -/
def stockBase : Nat := 0x80000000

private def grey (level : UInt8) : Color := .rgb level level level

/-- The objects that exist without being created, in the order of their handles. -/
def stockObjects : List Object :=
  [.brush ⟨0, .white, 0⟩, .brush ⟨0, grey 0xC0, 0⟩, .brush ⟨0, grey 0x80, 0⟩,
    .brush ⟨0, grey 0x40, 0⟩, .brush ⟨0, .black, 0⟩, .brush ⟨Brush.nullStyle, .black, 0⟩,
    .pen ⟨0, 1, .white⟩, .pen ⟨0, 1, .black⟩, .pen ⟨Pen.nullStyle, 1, .black⟩]

def stock? (handle : Nat) : Option Object :=
  if stockBase ≤ handle then stockObjects[handle - stockBase]? else none

end Object

end Metafile.Gdi
