import Metafile.Emf.Header
import Metafile.Emf.Kind
import Metafile.Record.Walk

/-! EMF files. Sizes of records are counted in bytes, include the type and the
size itself, and are multiples of four. -/

namespace Metafile.Emf

/-- The record at a position. The stream ends with fewer bytes than a record
begins with, or with a record that is too short or runs past the end of the
file. A record inside the file with a size that is not a multiple of four is
bad. -/
def recordAt (data : Bytes) (position : Nat) : Step position :=
  let size := data.u32At (position + 4)
  if data.size < position + 8 then .stop
  else if hShort : size < 8 then .stop
  else if data.size < position + size then .stop
  else if size % 4 ≠ 0 then .bad (.sizeNotInDwords size)
  else
    .found ⟨data.u32At position, size, 0, position, data.slice (position + 8) (size - 8)⟩
      (position + size) (by omega)

/-- How far reading goes on behind a bad record. -/
def resync : Nat := 8

/-- The way along the records behind the header, as many as the header counts. -/
def Header.visits (h : Header) (data : Bytes) : List Visit :=
  walk data.size (recordAt data) resync h.headerSize h.recordCount

structure File where
  header : Header
  visits : List Visit
deriving Repr, DecidableEq

def File.decode (data : Bytes) : Report File :=
  match Header.decode data with
  | .error error => .fail error []
  | .ok header =>
    let visits := header.visits data
    .done ⟨header, visits⟩ (Visit.warnings 0 resync visits)

end Metafile.Emf
