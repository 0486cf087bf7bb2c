import Metafile.Geometry.Point

/-! Paths: figures that are collected first and rendered together later. -/

namespace Metafile.Gdi

abbrev Figure := List (Point Float)

/-- The figures of a path in surface coordinates, the newest one first. Shapes
are added only while it is recording. -/
structure Path where
  figures : List Figure
  recording : Bool
deriving DecidableEq

namespace Path

/-- A path that has just been opened. -/
def opened : Path := ⟨[], true⟩

def push (path : Path) (figure : Figure) : Path :=
  { path with figures := figure :: path.figures }

/-- Adds points to the newest figure. Only if there is no figure a new one begins
with the start point. -/
def extend (path : Path) (start : Point Float) (points : List (Point Float)) : Path :=
  match path.figures with
  | [] => { path with figures := [start :: points] }
  | newest :: earlier => { path with figures := (newest ++ points) :: earlier }

/-- Leads the newest figure back to its first point. -/
def closeFigure (path : Path) : Path :=
  match path.figures with
  | (first :: rest) :: earlier => { path with figures := (first :: rest ++ [first]) :: earlier }
  | _ => path

/-- The figures with at least `count` points, in the order of their creation. -/
def rendered (path : Path) (count : Nat) : List Figure :=
  path.figures.reverse.filter fun figure => count ≤ figure.length

end Path

end Metafile.Gdi
