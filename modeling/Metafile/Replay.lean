import Metafile.Emf.Reading
import Metafile.Picture
import Metafile.Plus.Reading
import Metafile.Wmf.Reading

/-! Replaying a picture: the calls that draw it. -/

namespace Metafile

/-- How many records a replay met, how many of them had no kind, and how many
could not be read. -/
structure Summary where
  dispatched : Nat
  unhandled : Nat
  failed : Nat
deriving Repr, DecidableEq

def Summary.ofOutcomes (outcomes : List Outcome) : Summary where
  dispatched := outcomes.length
  unhandled := outcomes.countP fun
    | .unhandled => true
    | _ => false
  failed := outcomes.countP fun
    | .failed _ => true
    | _ => false

structure Replay where
  calls : List Call
  summary : Summary
  warnings : List Warning

namespace Replay

/-- The replay of a picture that was not decoded. -/
def nothing : Replay := ⟨[], .ofOutcomes [], []⟩

/-- The replay of records on a machine that starts in a state. The calls that
prepare the surface come first. -/
def ofRecords {σ α : Type} (setup : List Call) (plotter : Plotter σ α) (start : σ)
    (reading : Record → Reading α) (records : List Record) : Replay :=
  let readings := records.map fun record => (record, reading record)
  { calls := setup ++ plotter.calls start (readings.flatMap fun entry => entry.2.actions)
    summary := .ofOutcomes (readings.map fun entry => entry.2.outcome)
    warnings := readings.filterMap fun entry =>
      match entry.2.outcome with
      | .failed fault => some (.recordSkipped entry.1.opcode entry.1.offset fault)
      | _ => none }

/-- A size to use in place of that of the picture, and the colour of the
background, if it is to be filled. -/
structure Options where
  surfaceSize : Option (Size Float)
  background : Option Color

def Options.standard : Options := ⟨none, some .white⟩

/-- The size of surfaces for pictures without a size. -/
def standardSize : Size Float := ⟨800, 600⟩

/-- The number of handles of pictures that do not declare one. -/
def standardHandleLimit : Nat := 0x10000

end Replay

namespace Header

/-- The size of the surface that a picture asks for. The bounding box of a WMF
file gives it, if there is one and it has an area. The bounds of an EMF file
include their right and lower edges, so they always have an area. -/
def surfaceSize : Header → Size Float
  | wmf header =>
    match header.placeable with
    | none => Replay.standardSize
    | some placeable =>
      let size : Size Float :=
        ⟨Float.ofInt placeable.bounds.width.natAbs, Float.ofInt placeable.bounds.height.natAbs⟩
      if size.isDrawable then size else Replay.standardSize
  | emf header =>
    ⟨Float.ofInt (header.bounds.width.natAbs + 1), Float.ofInt (header.bounds.height.natAbs + 1)⟩

/-- The mapping before the first record. The bounding box of a WMF file moves its
upper left corner to the origin. -/
def initialMap : Header → CoordinateMap
  | wmf header =>
    match header.placeable with
    | none => .initial
    | some placeable =>
      { CoordinateMap.initial with
        windowOrigin := ⟨placeable.bounds.left, placeable.bounds.top⟩ }
  | emf _ => .initial

/-- Object handles in the file are below this number. -/
def handleLimit : Header → Nat
  | wmf _ => Replay.standardHandleLimit
  | emf header => if 0 < header.handleCount then header.handleCount else Replay.standardHandleLimit

end Header

namespace Replay.Options

/-- The size that is asked for, if anything can be drawn on it, or that of the
picture. -/
def sizeFor (o : Options) (header : Header) : Size Float :=
  match o.surfaceSize with
  | some size => if size.isDrawable then size else header.surfaceSize
  | none => header.surfaceSize

/-- The calls before the first record. -/
def setup (o : Options) (header : Header) : List Call :=
  .setSize (o.sizeFor header) :: (o.background.map Call.fillBackground).toList

end Replay.Options

/-- The replay of a picture. Without a header or a known format nothing happens,
and the surface is not even given a size. -/
def Picture.replay (p : Picture) (o : Replay.Options) : Replay :=
  match p.header with
  | none => .nothing
  | some header =>
    let session := Gdi.Session.initial header.initialMap
    match p.format with
    | .placeableWmf | .wmf =>
      .ofRecords (o.setup header) Gdi.Session.plotter session Wmf.reading p.records
    | .emf =>
      .ofRecords (o.setup header) Gdi.Session.plotter session (Emf.reading header.handleLimit)
        p.records
    | .emfPlus =>
      .ofRecords (o.setup header) Plus.Session.plotter .initial Plus.reading p.records
    | .unknown => .nothing

end Metafile
