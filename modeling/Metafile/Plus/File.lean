import Metafile.Emf.File
import Metafile.Plus.Kind

/-! EMF+ records, which travel inside the comments of an EMF file. -/

namespace Metafile.Plus

/-- The letters that mark a comment with EMF+ records. -/
def identifier : Nat := 0x2B464D45

/-- Every EMF+ record begins with type, flags, size and data length. -/
def recordHeaderSize : Nat := 12

/-- The record at a position of a comment body that starts at `base` in the file.
Its size may count padding behind its data. A record with data inside the body
and a size below that of its first fields is bad. -/
def recordAt (body : Bytes) (base position : Nat) : Step position :=
  let size := body.u32At (position + 4)
  let dataLength := body.u32At (position + 8)
  if body.size < position + recordHeaderSize then .stop
  else if body.size < position + recordHeaderSize + dataLength then .stop
  else if size < recordHeaderSize then .bad (.sizeBelowHeader size)
  else
    .found
      ⟨body.u16At position, size, body.u16At (position + 2), base + position,
        body.slice (position + recordHeaderSize) dataLength⟩
      (position + max size (recordHeaderSize + dataLength))
      (by simp only [recordHeaderSize]; omega)

/-- How far reading goes on behind a bad record. -/
def resync : Nat := recordHeaderSize

/-- The EMF+ part of a comment: its place in the file and its bytes. -/
structure Body where
  base : Nat
  bytes : Bytes
deriving Repr, DecidableEq

/-- The body of a comment that carries EMF+ records. Its length field counts the
identifier and the records, and what the payload holds behind them is left
out. -/
def Body.ofRecord? (comment : Record) : Option Body :=
  let payload := comment.payload
  if comment.opcode ≠ Emf.Kind.comment.code then none
  else if payload.size < 8 ∨ payload.u32At 4 ≠ identifier then none
  else
    let stop := max 8 (min (payload.u32At 0 + 4) payload.size)
    some ⟨comment.offset + 16, payload.extract 8 stop⟩

def Body.visits (body : Body) (limit : Nat) : List Visit :=
  walk body.bytes.size (recordAt body.bytes body.base) resync 0 limit

/-- The header of the EMF file and the EMF+ records of its comments. -/
structure File where
  header : Emf.Header
  records : List Record
deriving Repr, DecidableEq

/-- Reads the EMF records and then those inside each comment, at most `limit` to a
comment. All other EMF records are left out. -/
def File.decode (limit : Nat) (data : Bytes) : Report File :=
  match Emf.Header.decode data with
  | .error error => .fail error []
  | .ok header =>
    let outer := header.visits data
    let bodies := (Visit.records outer).filterMap Body.ofRecord?
    .done ⟨header, bodies.flatMap fun body => Visit.records (body.visits limit)⟩
      (Visit.warnings 0 Emf.resync outer ++
        bodies.flatMap fun body => Visit.warnings body.base resync (body.visits limit))

end Metafile.Plus
