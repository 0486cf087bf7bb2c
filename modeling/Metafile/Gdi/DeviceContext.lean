import Metafile.Gdi.Object
import Metafile.Geometry.Point

/-! Drawing attributes. -/

namespace Metafile.Gdi

/-- The attributes in force at a moment of a replay. The position is the logical
point where the next line starts. -/
structure DeviceContext where
  pen : Pen
  brush : Brush
  font : Option Font
  textColor : Color
  backColor : Color
  backMode : Nat
  rasterOperation : Nat
  polyFillMode : Nat
  stretchMode : Nat
  textAlign : Nat
  position : Point Float

/-- An attribute with a new value. -/
inductive Attribute where
  | textColor (color : Color)
  | backColor (color : Color)
  | backMode (mode : Nat)
  | rasterOperation (operation : Nat)
  | polyFillMode (mode : Nat)
  | stretchMode (mode : Nat)
  | textAlign (flags : Nat)

namespace DeviceContext

def initial : DeviceContext where
  pen := ⟨0, 1, .black⟩
  brush := ⟨0, .white, 0⟩
  font := none
  textColor := .black
  backColor := .white
  backMode := 2
  rasterOperation := 13
  polyFillMode := 1
  stretchMode := 1
  textAlign := 0
  position := ⟨0, 0⟩

def set (dc : DeviceContext) : Attribute → DeviceContext
  | .textColor color => { dc with textColor := color }
  | .backColor color => { dc with backColor := color }
  | .backMode mode => { dc with backMode := mode }
  | .rasterOperation operation => { dc with rasterOperation := operation }
  | .polyFillMode mode => { dc with polyFillMode := mode }
  | .stretchMode mode => { dc with stretchMode := mode }
  | .textAlign flags => { dc with textAlign := flags }

/-- Takes up an object. Only pens, brushes and fonts have an effect. -/
def select (dc : DeviceContext) : Option Object → DeviceContext
  | some (.pen pen) => { dc with pen }
  | some (.brush brush) => { dc with brush }
  | some (.font font) => { dc with font := some font }
  | some (.placeholder _) => dc
  | none => dc

/-- Whether text starts at the current position and not at a point of its own. -/
def textFromPosition (dc : DeviceContext) : Bool := dc.textAlign % 2 == 1

end DeviceContext

end Metafile.Gdi
