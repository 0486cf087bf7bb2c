/-! The shortest decimal number inside an interval. The powers of ten are tried
from coarse to fine. On the first one with a multiple inside the interval the
multiple nearest to the value is taken, so no decimal with fewer digits lies
inside. All arithmetic is on natural numbers and therefore exact. -/

namespace Metafile

/-- The number `digits * 10 ^ exponent`. -/
structure Decimal where
  digits : Nat
  exponent : Int
deriving Repr, DecidableEq

namespace Decimal

/-- A number `value / unit` inside an interval from `low / unit` to
`high / unit`, whose ends belong to it if it is closed. -/
structure Interval where
  low : Nat
  value : Nat
  high : Nat
  unit : Nat
  closed : Bool

namespace Interval

/-- The same interval measured in multiples of `10 ^ exponent`. -/
def measuredIn (i : Interval) (exponent : Int) : Interval :=
  if 0 ≤ exponent then { i with unit := i.unit * Nat.pow 10 exponent.toNat }
  else
    let factor := Nat.pow 10 (-exponent).toNat
    { i with low := i.low * factor, value := i.value * factor, high := i.high * factor }

def contains (i : Interval) (point : Nat) : Bool :=
  if i.closed then decide (i.low ≤ point * i.unit ∧ point * i.unit ≤ i.high)
  else decide (i.low < point * i.unit ∧ point * i.unit < i.high)

/-- The integer inside the interval that is nearest to the value. Only the two
integers around the value need a test; of two equally near the upper is taken. -/
def nearest? (i : Interval) : Option Nat :=
  let below := i.value / i.unit
  let above := below + 1
  let lowerHalf := 2 * (i.value % i.unit) < i.unit
  if i.contains below && (lowerHalf || !i.contains above) then some below
  else if i.contains above then some above
  else none

/-- A power of ten above the value. It may be too large by a few steps, since
one binary digit is counted as 0.30103 decimal digits. -/
def topExponent (i : Interval) : Int :=
  ((i.value.log2 : Int) - i.unit.log2 + 1) * 30103 / 100000 + 2

/-- The first power of ten that hits the interval, going down. Seventeen
significant digits tell all binary64 numbers apart, and the first steps may lie
above the value, so that `binary64` and `binary32` intervals are always hit. -/
def shortest? (i : Interval) : Option Decimal :=
  (List.range 24).findSome? fun (step : Nat) =>
    let exponent := i.topExponent - step
    (i.measuredIn exponent).nearest?.map fun digits => ⟨digits, exponent⟩

/-- The integer that is found stands inside the interval, since only integers that have been
tested for this are given. -/
theorem contains_of_nearest? {i : Interval} {point : Nat} (hNearest : i.nearest? = some point) :
    i.contains point = true := by
  unfold nearest? at hNearest
  grind

/-- The decimal that is found stands inside the interval, measured in its own power of ten. -/
theorem contains_of_shortest? {i : Interval} {d : Decimal} (hShortest : i.shortest? = some d) :
    (i.measuredIn d.exponent).contains d.digits = true := by
  obtain ⟨step, -, hFound⟩ := List.exists_of_findSome?_eq_some hShortest
  obtain ⟨digits, hNearest, rfl⟩ := Option.map_eq_some_iff.1 hFound
  exact contains_of_nearest? hNearest

end Interval

end Decimal

end Metafile
