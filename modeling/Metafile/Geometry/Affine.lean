import Metafile.Geometry.Point

/-! Affine maps of the plane. -/

namespace Metafile

/-- The map that takes `(x, y)` to
`(m11 * x + m21 * y + dx, m12 * x + m22 * y + dy)`. -/
structure Affine (α : Type) where
  m11 : α
  m12 : α
  m21 : α
  m22 : α
  dx : α
  dy : α
deriving DecidableEq

namespace Affine

def identity {α : Type} [OfNat α 0] [OfNat α 1] : Affine α := ⟨1, 0, 0, 1, 0, 0⟩

def shift {α : Type} [OfNat α 0] [OfNat α 1] (dx dy : α) : Affine α :=
  ⟨1, 0, 0, 1, dx, dy⟩

def scale {α : Type} [OfNat α 0] (horizontal vertical : α) : Affine α :=
  ⟨horizontal, 0, 0, vertical, 0, 0⟩

/-- The rotation by an angle in degrees. -/
def rotation (degrees : Float) : Affine Float :=
  let angle := degrees * (pi / 180)
  ⟨angle.cos, angle.sin, -angle.sin, angle.cos, 0, 0⟩
where
  pi : Float := 3.141592653589793

variable {α : Type} [Add α] [Mul α]

@[specialize]
def apply (t : Affine α) (p : Point α) : Point α :=
  ⟨t.m11 * p.x + t.m21 * p.y + t.dx, t.m12 * p.x + t.m22 * p.y + t.dy⟩

/-- The map that applies `first` and then `second`. -/
@[specialize]
def andThen (first second : Affine α) : Affine α where
  m11 := first.m11 * second.m11 + first.m12 * second.m21
  m12 := first.m11 * second.m12 + first.m12 * second.m22
  m21 := first.m21 * second.m11 + first.m22 * second.m21
  m22 := first.m21 * second.m12 + first.m22 * second.m22
  dx := first.dx * second.m11 + first.dy * second.m21 + second.dx
  dy := first.dx * second.m12 + first.dy * second.m22 + second.dy

end Affine

end Metafile
