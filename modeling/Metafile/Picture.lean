import Metafile.Format.Detect
import Metafile.Wmf.File

/-! Decoded files of any format. -/

namespace Metafile

/-- Upper bounds on the number of records that are read. -/
structure Limits where
  wmfRecords : Nat
  plusRecordsPerComment : Nat
deriving Repr, DecidableEq

def Limits.standard : Limits := ⟨1000, 4096⟩

inductive Header where
  | wmf (header : Wmf.Header)
  | emf (header : Emf.Header)
deriving Repr, DecidableEq

/-- A decoded file. After an error it has neither header nor records. -/
structure Picture where
  format : Format
  header : Option Header
  records : List Record
  error : Option HeaderError
deriving Repr, DecidableEq

/-- Reads a buffer as a file of the given format. What is neither EMF nor EMF+ is
read as WMF. -/
def Format.decode (format : Format) (limits : Limits) (data : Bytes) :
    Report (Header × List Record) :=
  match format with
  | .emf => (Emf.File.decode data).map fun file => (.emf file.header, Visit.records file.visits)
  | .emfPlus =>
    (Plus.File.decode limits.plusRecordsPerComment data).map fun file =>
      (.emf file.header, file.records)
  | _ =>
    (Wmf.File.decode (format == .placeableWmf) limits.wmfRecords data).map fun file =>
      (.wmf file.header, Visit.records file.visits)

namespace Format

/-- The part of an opcode that names the kind of a record. -/
def kindCode (format : Format) (opcode : Nat) : Nat :=
  match format with
  | .emf => opcode
  | _ => opcode % 0x10000

/-- The name of the kind of a record, if the format has one for it. -/
def kindLabel? (format : Format) (opcode : Nat) : Option String :=
  let code := format.kindCode opcode
  match format with
  | .emf => (Emf.Kind.ofCode? code).map Emf.Kind.label
  | .emfPlus => (Plus.Kind.ofCode? code).map Plus.Kind.label
  | _ => (Wmf.Kind.ofCode? code).map Wmf.Kind.label

/-- The name of a record for display. -/
def recordName (format : Format) (opcode : Nat) : String :=
  (format.kindLabel? opcode).getD "UNKNOWN"

end Format

namespace Picture

/-- Finds out the format of a buffer and reads it. -/
def decode (limits : Limits) (data : Bytes) : Picture × List Warning :=
  let format := Format.detect data
  let report :=
    if format = .unknown then .fail .unknownFormat [] else format.decode limits data
  match report.result with
  | .ok (header, records) => (⟨format, some header, records, none⟩, report.warnings)
  | .error error =>
    (⟨format, none, [], some error⟩, report.warnings ++ [.decodingFailed format error])

end Picture

end Metafile
