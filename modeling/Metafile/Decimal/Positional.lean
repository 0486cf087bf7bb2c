import Metafile.Decimal.Shortest

/-! Positional decimal text: all digits are written out, never an exponent, and
a whole number has no point. -/

namespace Metafile.Decimal

def zeros (count : Nat) : String := String.ofList (List.replicate count '0')

/-- The digits with the point set by the exponent, and zeros where the digits
do not reach the point. -/
def positional (d : Decimal) : String :=
  let written := d.digits.repr
  if 0 ≤ d.exponent then
    if d.digits = 0 then "0" else written ++ zeros d.exponent.toNat
  else
    let places := (-d.exponent).toNat
    let digits := (zeros (places + 1 - written.length) ++ written).toList
    String.ofList (digits.take (digits.length - places)) ++ "." ++
      String.ofList (digits.drop (digits.length - places))

end Metafile.Decimal
