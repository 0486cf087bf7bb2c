/-! The file formats that a buffer may hold. -/

namespace Metafile

inductive Format where
  /-- A WMF file behind a header with its bounding box. -/
  | placeableWmf
  | wmf
  | emf
  /-- An EMF file whose comments carry EMF+ records. -/
  | emfPlus
  | unknown
deriving Repr, DecidableEq

def Format.label : Format → String
  | placeableWmf => "PlaceableWmf"
  | wmf => "Wmf"
  | emf => "Emf"
  | emfPlus => "EmfPlus"
  | unknown => "Unknown"

end Metafile
