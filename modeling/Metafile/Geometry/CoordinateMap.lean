import Metafile.Geometry.Point

/-! The mapping from logical to surface coordinates. A window in logical units is
laid over a viewport on the surface; the metric and English modes have a fixed
scale instead. The vertical axis keeps its direction in every mode. -/

namespace Metafile

/-- How logical units relate to the surface. -/
inductive MapMode where
  | text
  | loMetric
  | hiMetric
  | loEnglish
  | hiEnglish
  | twips
  | isotropic
  | anisotropic
  /-- A number outside the defined range, which maps like `text`. -/
  | other (code : Nat)
deriving Repr, DecidableEq

namespace MapMode

def ofCode : Nat → MapMode
  | 1 => text
  | 2 => loMetric
  | 3 => hiMetric
  | 4 => loEnglish
  | 5 => hiEnglish
  | 6 => twips
  | 7 => isotropic
  | 8 => anisotropic
  | code => other code

def label : MapMode → String
  | text => "Text"
  | loMetric => "LoMetric"
  | hiMetric => "HiMetric"
  | loEnglish => "LoEnglish"
  | hiEnglish => "HiEnglish"
  | twips => "Twips"
  | isotropic => "Isotropic"
  | anisotropic => "Anisotropic"
  | other code => "Other(" ++ code.repr ++ ")"

/-- The scale of the modes whose unit is a fixed length. -/
def unitScale {α : Type} [Scalar α] : MapMode → Option α
  | loMetric => some (Scalar.ofInt 1 / Scalar.ofInt 10)
  | hiMetric => some (Scalar.ofInt 1 / Scalar.ofInt 100)
  | loEnglish => some (Scalar.ofInt 254 / Scalar.ofInt 1000)
  | hiEnglish => some (Scalar.ofInt 254 / Scalar.ofInt 10000)
  | twips => some (Scalar.ofInt 1 / Scalar.ofInt 1440)
  | _ => none

end MapMode

/-- The nearest number that a signed 32-bit field can hold. -/
def saturate (value : Int) : Int := max (-0x80000000) (min value 0x7fffffff)

/-- A fraction by which an extent is scaled. -/
structure Ratio where
  numerator : Int
  denominator : Int
deriving Repr, DecidableEq

/-- The scaled length, rounded toward zero. A ratio with denominator zero is
ignored. -/
def Ratio.scale (r : Ratio) (length : Int) : Int :=
  if r.denominator = 0 then length
  else saturate ((length * r.numerator).tdiv r.denominator)

/-- Window and viewport of a drawing. -/
structure CoordinateMap where
  mode : MapMode
  windowOrigin : Point Int
  windowExtent : Size Int
  viewportOrigin : Point Int
  viewportExtent : Size Int
deriving Repr, DecidableEq

private def shift (p : Point Int) (dx dy : Int) : Point Int :=
  ⟨saturate (p.x + dx), saturate (p.y + dy)⟩

private def stretch (s : Size Int) (horizontal vertical : Ratio) : Size Int :=
  ⟨horizontal.scale s.width, vertical.scale s.height⟩

namespace CoordinateMap

/-- Window and viewport agree, so that nothing is moved or scaled. -/
def initial : CoordinateMap := ⟨.text, ⟨0, 0⟩, ⟨800, 600⟩, ⟨0, 0⟩, ⟨800, 600⟩⟩

/-- What a record may change about a mapping. -/
inductive Change where
  | mode (mode : MapMode)
  | windowOrigin (origin : Point Int)
  | windowExtent (extent : Size Int)
  | viewportOrigin (origin : Point Int)
  | viewportExtent (extent : Size Int)
  | offsetWindow (dx dy : Int)
  | offsetViewport (dx dy : Int)
  | scaleWindow (horizontal vertical : Ratio)
  | scaleViewport (horizontal vertical : Ratio)
deriving Repr, DecidableEq

def change (m : CoordinateMap) : Change → CoordinateMap
  | .mode mode => { m with mode }
  | .windowOrigin origin => { m with windowOrigin := origin }
  | .windowExtent extent => { m with windowExtent := extent }
  | .viewportOrigin origin => { m with viewportOrigin := origin }
  | .viewportExtent extent => { m with viewportExtent := extent }
  | .offsetWindow dx dy => { m with windowOrigin := shift m.windowOrigin dx dy }
  | .offsetViewport dx dy => { m with viewportOrigin := shift m.viewportOrigin dx dy }
  | .scaleWindow horizontal vertical =>
    { m with windowExtent := stretch m.windowExtent horizontal vertical }
  | .scaleViewport horizontal vertical =>
    { m with viewportExtent := stretch m.viewportExtent horizontal vertical }

/-- The place of a logical point on the surface. A mode with a fixed scale
ignores the viewport, and a window without area leaves points where they are. -/
@[specialize]
def apply {α : Type} [Scalar α] (m : CoordinateMap) (p : Point α) : Point α :=
  let dx := p.x - Scalar.ofInt m.windowOrigin.x
  let dy := p.y - Scalar.ofInt m.windowOrigin.y
  match (m.mode.unitScale : Option α) with
  | some scale => ⟨dx * scale, dy * scale⟩
  | none =>
    if m.windowExtent.width = 0 ∨ m.windowExtent.height = 0 then p
    else
      ⟨dx * (Scalar.ofInt m.viewportExtent.width / Scalar.ofInt m.windowExtent.width) +
          Scalar.ofInt m.viewportOrigin.x,
        dy * (Scalar.ofInt m.viewportExtent.height / Scalar.ofInt m.windowExtent.height) +
          Scalar.ofInt m.viewportOrigin.y⟩

/-- The size on the surface of a logical length, such as a pen width or a font
height. Lengths are scaled by the width of the window whether or not it has a height. -/
@[specialize]
def scaleLength {α : Type} [Scalar α] (m : CoordinateMap) (length : α) : α :=
  match (m.mode.unitScale : Option α) with
  | some scale => length * scale
  | none =>
    if m.windowExtent.width = 0 then length
    else
      length *
        Scalar.abs (Scalar.ofInt m.viewportExtent.width / Scalar.ofInt m.windowExtent.width)

end CoordinateMap

end Metafile
