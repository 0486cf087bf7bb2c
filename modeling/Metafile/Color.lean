import Metafile.Decimal.Binary
import Metafile.Text.Hex

/-! Colours with an alpha channel, in the two packed forms that records use. -/

namespace Metafile

structure Color where
  red : UInt8
  green : UInt8
  blue : UInt8
  alpha : UInt8
deriving Repr, DecidableEq

namespace Color

/-- A colour that covers what is below it. -/
def rgb (red green blue : UInt8) : Color := ⟨red, green, blue, 255⟩

def black : Color := rgb 0 0 0

def white : Color := rgb 255 255 255

def transparent : Color := ⟨0, 0, 0, 0⟩

private def channel (value index : Nat) : UInt8 := UInt8.ofNat (value >>> (8 * index))

/-- The colour packed with red in the lowest byte; the highest byte is not used
and the colour covers what is below it. -/
def ofColorref (value : Nat) : Color :=
  rgb (channel value 0) (channel value 1) (channel value 2)

/-- The colour packed with blue in the lowest byte and alpha in the highest. -/
def ofArgb (value : Nat) : Color :=
  ⟨channel value 2, channel value 1, channel value 0, channel value 3⟩

/-- The CSS text of a colour. Alpha appears as a fraction of 255. -/
def css (c : Color) : String :=
  if c.alpha = 255 then
    "#" ++ String.ofList ([c.red, c.green, c.blue].flatMap (Text.hexDigits 2 ·.toNat))
  else
    let share := c.alpha.toNat.toFloat32 / 255
    "rgba(" ++ c.red.toNat.repr ++ "," ++ c.green.toNat.repr ++ "," ++ c.blue.toNat.repr ++ "," ++
      Decimal.text32 share ++ ")"

end Color

end Metafile
