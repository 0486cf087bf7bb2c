import Metafile.Decimal.Positional

/-! Decimal text of binary floating-point numbers: the fewest digits that read
back to the same number. The digits are chosen from the bits alone. -/

namespace Metafile.Decimal

/-- Widths of the fraction and exponent fields of a binary interchange format. -/
structure BinaryFormat where
  fractionBits : Nat
  exponentBits : Nat

def binary64 : BinaryFormat := ⟨52, 11⟩

def binary32 : BinaryFormat := ⟨23, 8⟩

/-- The numbers that round to `mantissa * 2 ^ exponent`. They reach halfway to
the neighbours, and the lower neighbour of a power of two is twice as near.
Both ends round to an even mantissa. -/
def roundingInterval (mantissa : Nat) (exponent : Int) (narrowBelow : Bool) : Interval :=
  let quarter := exponent - 2
  let scale := 1 <<< quarter.toNat
  { low := (4 * mantissa - if narrowBelow then 1 else 2) * scale
    value := 4 * mantissa * scale
    high := (4 * mantissa + 2) * scale
    unit := 1 <<< (-quarter).toNat
    closed := mantissa % 2 == 0 }

/-- Text of the number with the given bits. Zero keeps its sign, and the sign
of a number that is none is not shown. -/
def textOfBits (format : BinaryFormat) (bits : Nat) : String :=
  let fraction := bits % (1 <<< format.fractionBits)
  let biased := (bits >>> format.fractionBits) % (1 <<< format.exponentBits)
  let sign := if bits.testBit (format.fractionBits + format.exponentBits) then "-" else ""
  let bias : Int := ((1 <<< (format.exponentBits - 1)) - 1 : Nat)
  if biased + 1 = 1 <<< format.exponentBits then
    if fraction = 0 then sign ++ "inf" else "NaN"
  else if biased = 0 ∧ fraction = 0 then sign ++ "0"
  else
    let mantissa := if biased = 0 then fraction else (1 <<< format.fractionBits) + fraction
    let exponent : Int := (max biased 1 : Nat) - bias - format.fractionBits
    let interval := roundingInterval mantissa exponent (fraction == 0 && decide (1 < biased))
    sign ++ (interval.shortest?.elim "" positional)

/-- Shortest text of a binary64 number. -/
def text (x : Float) : String := textOfBits binary64 x.toBits.toNat

/-- Shortest text of a binary32 number. -/
def text32 (x : Float32) : String := textOfBits binary32 x.toBits.toNat

end Metafile.Decimal
