/-! The numbers that coordinates are computed in. Mappings and curves are written
once over them: binary64 numbers are what is drawn, and rational numbers give
the same formulas without rounding. -/

namespace Metafile

/-- Arithmetic that includes the whole numbers. -/
class Scalar (α : Type) extends Add α, Sub α, Mul α, Div α where
  ofInt : Int → α
  abs : α → α

instance : Scalar Float where
  ofInt := Float.ofInt
  abs := Float.abs

instance : Scalar Rat where
  ofInt n := n
  abs q := if q < 0 then -q else q

end Metafile
