import Metafile.Fault
import Metafile.Geometry.Point
import Metafile.Bytes

/-! The headers of WMF files: the standard header and the placeable header that
may come before it. -/

namespace Metafile.Wmf

/-- A header that places the picture: its bounding box in logical units and the
number of these units to an inch. -/
structure Placeable where
  key : Nat
  handle : Nat
  bounds : Rect
  unitsPerInch : Nat
  reserved : Nat
  checksum : Nat
deriving Repr, DecidableEq

namespace Placeable

/-- The number that every placeable header begins with. -/
def expectedKey : Nat := 0x9AC6CDD7

def size : Nat := 22

def read (data : Bytes) : Placeable where
  key := data.u32At 0
  handle := data.u16At 4
  bounds := ⟨data.i16At 6, data.i16At 8, data.i16At 10, data.i16At 12⟩
  unitsPerInch := data.u16At 14
  reserved := data.u32At 16
  checksum := data.u16At 20

/-- The word that a signed number is stored as. -/
def word (value : Int) : Nat := (value % 0x10000).toNat

/-- The exclusive or of the ten words before the checksum. -/
def computedChecksum (p : Placeable) : Nat :=
  [p.key % 0x10000, p.key / 0x10000, p.handle, word p.bounds.left, word p.bounds.top,
    word p.bounds.right, word p.bounds.bottom, p.unitsPerInch, p.reserved % 0x10000,
    p.reserved / 0x10000].foldl Nat.xor 0

def checksumMatches (p : Placeable) : Bool := p.computedChecksum == p.checksum

/-- Neither a wrong key nor a wrong checksum keeps the file from being read. -/
def warnings (p : Placeable) : List Warning :=
  (if p.key = expectedKey then [] else [.placeableKey p.key]) ++
    if p.checksumMatches then [] else [.placeableChecksum p.checksum p.computedChecksum]

end Placeable

/-- The standard header. Sizes in it are counted in 16-bit words. -/
structure Header where
  placeable : Option Placeable
  fileType : Nat
  headerSizeWords : Nat
  version : Nat
  fileSizeWords : Nat
  objectCount : Nat
  maxRecordWords : Nat
  reserved : Nat
deriving Repr, DecidableEq

namespace Header

def size : Nat := 18

/-- The fields of a standard header that starts at the given place. -/
def read (placeable : Option Placeable) (data : Bytes) (start : Nat) : Header where
  placeable
  fileType := data.u16At start
  headerSizeWords := data.u16At (start + 2)
  version := data.u16At (start + 4)
  fileSizeWords := data.u32At (start + 6)
  objectCount := data.u16At (start + 10)
  maxRecordWords := data.u32At (start + 12)
  reserved := data.u16At (start + 16)

end Header

end Metafile.Wmf
