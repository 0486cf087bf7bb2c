import Metafile.Plus.File
import Metafile.Wmf.Header

/-! Telling the formats apart by the first bytes of a file. -/

namespace Metafile.Format

/-- The first four bytes of standard WMF headers: a file type of zero to two and
a header of nine words. -/
def wmfMarks : List Nat := [0x00090000, 0x00090001, 0x00090002]

def isPlusType (value : Nat) : Bool := 0x4001 ≤ value && value ≤ 0x4044

/-- Whether the first record behind an EMF header carries EMF+ records. It is a
comment with an EMF+ record in front, or its own type is one of EMF+. -/
def leadsWithPlus (data : Bytes) : Bool :=
  let start := data.u32At 4
  let recordType := data.u32At start
  isPlusType recordType ||
    (recordType == Emf.Kind.comment.code && data.u32At (start + 12) == Plus.identifier &&
      isPlusType (data.u16At (start + 16)))

def detect (data : Bytes) : Format :=
  let first := data.u32At 0
  if data.size < 4 then unknown
  else if first = Wmf.Placeable.expectedKey then placeableWmf
  else if first ∈ wmfMarks then wmf
  else if Emf.Header.size ≤ data.size ∧
      data.u32At Emf.Header.signatureOffset = Emf.Header.expectedSignature then
    if leadsWithPlus data then emfPlus else emf
  else unknown

end Metafile.Format
