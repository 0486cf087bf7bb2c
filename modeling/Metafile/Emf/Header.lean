import Metafile.Fault
import Metafile.Geometry.Point
import Metafile.Bytes
import Metafile.Text.Encoding

/-! The header of EMF files, which is itself the first record of the file. -/

namespace Metafile.Emf

/-- Bounds are in device units and include their right and lower edges; the frame
is in hundredths of a millimetre. -/
structure Header where
  recordType : Nat
  headerSize : Nat
  bounds : Rect
  frame : Rect
  signature : Nat
  version : Nat
  totalBytes : Nat
  recordCount : Nat
  handleCount : Nat
  reserved : Nat
  descriptionLength : Nat
  descriptionOffset : Nat
  paletteEntries : Nat
  devicePixels : Size Int
  deviceMillimeters : Size Int
deriving Repr, DecidableEq

namespace Header

/-- The letters of the signature field, which stands at `signatureOffset`. -/
def expectedSignature : Nat := 0x464D4520

def signatureOffset : Nat := 40

/-- The fixed fields of the header take this many bytes. -/
def size : Nat := 88

/-- The rectangle whose four edges are stored from `start` on. -/
def rectAt (data : Bytes) (start : Nat) : Rect :=
  ⟨data.i32At start, data.i32At (start + 4), data.i32At (start + 8), data.i32At (start + 12)⟩

def read (data : Bytes) : Header where
  recordType := data.u32At 0
  headerSize := data.u32At 4
  bounds := rectAt data 8
  frame := rectAt data 24
  signature := data.u32At signatureOffset
  version := data.u32At 44
  totalBytes := data.u32At 48
  recordCount := data.u32At 52
  handleCount := data.u16At 56
  reserved := data.u16At 58
  descriptionLength := data.u32At 60
  descriptionOffset := data.u32At 64
  paletteEntries := data.u32At 68
  devicePixels := ⟨data.i32At 72, data.i32At 76⟩
  deviceMillimeters := ⟨data.i32At 80, data.i32At 84⟩

/-- Reads the header and refuses one that no EMF file can begin with. -/
def decode (data : Bytes) : Except HeaderError Header :=
  let header := read data
  if data.size < size then .error (.truncated size data.size)
  else if header.signature ≠ expectedSignature then
    .error (.invalidSignature expectedSignature header.signature)
  else if header.recordType ≠ 1 then .error (.invalidRecordType header.recordType)
  else if header.headerSize < size then .error (.invalidSize header.headerSize)
  else .ok header

/-- A header is accepted just if it is there as a whole, carries the signature and
the type of the first record, and does not claim to be shorter than it is. -/
theorem decode_eq_ok_iff {data : Bytes} {h : Header} :
    decode data = .ok h ↔ size ≤ data.size ∧ (read data).signature = expectedSignature ∧
      (read data).recordType = 1 ∧ size ≤ (read data).headerSize ∧ read data = h := by
  simp only [decode]
  split
  case isTrue hShort => simp [Nat.not_le.2 hShort]
  case isFalse hRoom =>
    split
    case isTrue hSignature => simp [hSignature]
    case isFalse hSignature =>
      split
      case isTrue hType => simp [hType]
      case isFalse hType =>
        split
        case isTrue hSize => simp [Nat.not_le.2 hSize]
        case isFalse hSize => simp_all

/-- Width and height of the frame in millimetres. -/
def frameMillimeters (h : Header) : Size Float :=
  ⟨Float.ofInt h.frame.width / 100, Float.ofInt h.frame.height / 100⟩

private def separateParts : Char → List Char
  | '\x00' => [' ', '|', ' ']
  | c => [c]

/-- The description of the picture, if the header names a place for it inside the
file. Its parts are kept apart by NUL characters, shown as bars. -/
def description (h : Header) (data : Bytes) : Option String :=
  let stop := h.descriptionOffset + 2 * h.descriptionLength
  if h.descriptionLength = 0 ∨ h.descriptionOffset = 0 ∨ data.size < stop then none
  else
    let text := Text.ofUtf16 (data.extract h.descriptionOffset stop)
    some (String.ofList (text.toList.flatMap separateParts))

end Header

end Metafile.Emf
