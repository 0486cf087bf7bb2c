import Metafile.Bytes

/-! Records, the units of every metafile. -/

namespace Metafile

/-- A record as it stands in a file. The declared size is what the file says, in
16-bit words for WMF and in bytes otherwise. The payload is what follows the
fields that all records of the format begin with, and only EMF+ records have
flags. -/
structure Record where
  opcode : Nat
  declaredSize : Nat
  flags : Nat
  offset : Nat
  payload : Bytes
deriving Repr, DecidableEq

end Metafile
