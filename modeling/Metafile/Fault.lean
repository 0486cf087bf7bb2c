import Metafile.Format
import Metafile.Text.Hex

/-! What can be wrong with a file. An error in the file header ends decoding. A
fault in one record only loses that record, and a warning tells of it. -/

namespace Metafile

/-- Why a file header cannot be used. -/
inductive HeaderError where
  | unknownFormat
  | invalidSignature (expected found : Nat)
  | truncated (needed available : Nat)
  /-- The header declares that it has no words at all. -/
  | withoutWords
  | invalidRecordType (found : Nat)
  | invalidSize (found : Nat)
deriving Repr, DecidableEq

def HeaderError.message : HeaderError → String
  | unknownFormat => "Unrecognized metafile format"
  | invalidSignature expected found =>
    s!"Invalid signature: expected {Text.hexNumber 8 expected}, found {Text.hexNumber 8 found}"
  | truncated needed available =>
    s!"Truncated header: need {needed} bytes, have {available}"
  | withoutWords => "Invalid header: header size must be at least one word"
  | invalidRecordType found => s!"Invalid header record type: {found}"
  | invalidSize found => s!"Invalid header size: {found}"

/-- Why a record cannot be used. -/
inductive Fault where
  | payloadTooShort (held required : Nat)
  | negativeCount (count : Int)
  /-- The counts of the parts of a record differ from their declared total. -/
  | countsDisagree (total : Nat)
  | handleOutside (index limit : Nat)
  | sizeNotInDwords (size : Nat)
  | sizeBelowHeader (size : Nat)
  | textInsideHeader
  | textPastRecord (characters start : Nat)
  | textPastPayload (characters : Nat)
  | noRoomForBrush
deriving Repr, DecidableEq

def Fault.message : Fault → String
  | payloadTooShort held required => s!"payload holds {held} bytes, {required} required"
  | negativeCount count => s!"negative point count {count}"
  | countsDisagree total => s!"polygon counts do not add up to {total}"
  | handleOutside index limit => s!"object index {index} outside {limit} handles"
  | sizeNotInDwords size => s!"record size {size} is not a multiple of 4"
  | sizeBelowHeader size => s!"EMF+ record size {size} below header size"
  | textInsideHeader => "string offset inside record header"
  | textPastRecord characters start =>
    s!"{characters} characters at {start} run past the record"
  | textPastPayload characters => s!"{characters} characters run past the record"
  | noRoomForBrush => "pen data leaves no room for the brush"

/-- Something that was wrong but did not stop the work. -/
inductive Warning where
  | decodingFailed (format : Format) (error : HeaderError)
  | placeableKey (found : Nat)
  | placeableChecksum (stored computed : Nat)
  /-- A record that could not be cut out of the stream; reading went on the given
  number of bytes behind its start. -/
  | resynchronized (position : Nat) (fault : Fault) (bytes : Nat)
  /-- A record that could not be replayed. -/
  | recordSkipped (opcode position : Nat) (fault : Fault)
deriving Repr, DecidableEq

private def malformed (position : Nat) (fault : Fault) : String :=
  s!"Malformed record at offset {position}: {fault.message}"

def Warning.message : Warning → String
  | decodingFailed format error => s!"Failed to decode {format.label} metafile: {error.message}"
  | placeableKey found => s!"Placeable header key mismatch: {Text.hexNumber 8 found}"
  | placeableChecksum stored computed =>
    s!"Placeable header checksum mismatch: stored {Text.hexNumber 4 stored}, " ++
      s!"computed {Text.hexNumber 4 computed}"
  | resynchronized position fault bytes =>
    s!"{malformed position fault}; resynchronizing {bytes} bytes ahead"
  | recordSkipped opcode position fault =>
    s!"Skipping record {Text.hexNumber 4 opcode}: {malformed position fault}"

instance decidableEqExcept {ε α : Type} [DecidableEq ε] [DecidableEq α] :
    DecidableEq (Except ε α)
  | .error a, .error b => decidable_of_iff (a = b) (by simp)
  | .ok a, .ok b => decidable_of_iff (a = b) (by simp)
  | .error _, .ok _ | .ok _, .error _ => isFalse (by simp)

/-- A result together with the warnings on the way to it. -/
structure Report (α : Type) where
  result : Except HeaderError α
  warnings : List Warning
deriving DecidableEq

namespace Report

def fail {α : Type} (error : HeaderError) (warnings : List Warning) : Report α :=
  ⟨.error error, warnings⟩

def done {α : Type} (value : α) (warnings : List Warning) : Report α := ⟨.ok value, warnings⟩

def map {α β : Type} (f : α → β) (r : Report α) : Report β := ⟨r.result.map f, r.warnings⟩

end Report

end Metafile
