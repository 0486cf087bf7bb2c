import Metafile.Record.Walk
import Metafile.Wmf.Header
import Metafile.Wmf.Kind

/-! WMF files. Sizes of records are counted in 16-bit words and include the size
itself and the function number. -/

namespace Metafile.Wmf

/-- The record at a position. The stream ends with fewer bytes than a record
begins with, with a record that is too short or runs past the end of the file,
or with the end record, which is not part of the picture. -/
def recordAt (data : Bytes) (position : Nat) : Step position :=
  let words := data.u32At position
  let function := data.u16At (position + 4)
  if data.size < position + 6 then .stop
  else if hShort : words < 3 then .stop
  else if data.size < position + 2 * words then .stop
  else if function = Kind.eof.code then .stop
  else
    .found ⟨function, words, 0, position, data.slice (position + 6) (2 * (words - 3))⟩
      (position + 2 * words) (by omega)

/-- How far reading goes on behind a bad record. -/
def resync : Nat := 2

structure File where
  header : Header
  visits : List Visit
deriving Repr, DecidableEq

/-- Reads a file, with a placeable header in front if it is said to have one. The
records start where the standard header says that it ends, yet never inside
its fixed fields. -/
def File.decode (placed : Bool) (limit : Nat) (data : Bytes) : Report File :=
  if placed && decide (data.size < Placeable.size) then
    .fail (.truncated Placeable.size data.size) []
  else
    let placeable := if placed then some (Placeable.read data) else none
    let start := if placed then Placeable.size else 0
    let warnings := placeable.elim [] Placeable.warnings
    if data.size < start + Header.size then
      .fail (.truncated (start + Header.size) data.size) warnings
    else
      let header := Header.read placeable data start
      if header.headerSizeWords = 0 then .fail .withoutWords warnings
      else
        let first := start + max Header.size (2 * header.headerSizeWords)
        let visits := walk data.size (recordAt data) resync first limit
        .done ⟨header, visits⟩ (warnings ++ Visit.warnings 0 resync visits)

end Metafile.Wmf
