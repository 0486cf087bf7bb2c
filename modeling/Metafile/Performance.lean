import Metafile.Emf.Handler
import Metafile.Plus.Handler
import Metafile.Replay
import Metafile.Wmf.Handler

/-! Performing a picture on a surface: its records are handled one after the other, each of them by
the player that the one before it has left, and what became of them is counted. -/

namespace Metafile

/-- The player that a header asks for, on a surface that is prepared. -/
def Player.start {ω : Type} (header : Header) (canvas : ω) : Player ω where
  canvas := canvas
  gdi := .initial header.initialMap
  plus := .initial
  handleLimit := header.handleLimit

/-- How far a performance has come. -/
structure Performance (ω : Type) where
  player : Player ω
  summary : Summary
  warnings : Array Warning

namespace Performance

variable {ω : Type}

def start (player : Player ω) : Performance ω := ⟨player, ⟨0, 0, 0⟩, #[]⟩

/-- One record more. If it fails, a warning tells of it, and the player goes on with what the
record has left. -/
def advance (handle : Record → Play ω Bool) (so : Performance ω) (r : Record) : Performance ω :=
  let summary := { so.summary with dispatched := so.summary.dispatched + 1 }
  match (handle r).run so.player with
  | .ok true player => { so with player, summary }
  | .ok false player =>
    { so with player, summary := { summary with unhandled := summary.unhandled + 1 } }
  | .error fault player =>
    { player, summary := { summary with failed := summary.failed + 1 }
      warnings := so.warnings.push (.recordSkipped r.opcode r.offset fault) }

end Performance

/-- How the records of a format are handled. -/
def Format.handler? (ω : Type) [Surface ω] : Format → Option (Record → Play ω Bool)
  | placeableWmf | wmf => some Wmf.handle
  | emf => some Emf.handle
  | emfPlus => some Plus.handle
  | unknown => none

/-- What a performance leaves behind. -/
structure Performed (ω : Type) where
  canvas : ω
  summary : Summary
  warnings : List Warning

/-- The performance of a picture. Without a header or a known format nothing happens, and the
surface is not even given a size. -/
def Picture.perform {ω : Type} [Surface ω] (p : Picture) (canvas : ω) (o : Replay.Options) :
    Performed ω :=
  match p.header, p.format.handler? ω with
  | some header, some handle =>
    let prepared := Surface.receiveAll canvas (o.setup header)
    let done := p.records.foldl (Performance.advance handle) (.start (.start header prepared))
    ⟨done.player.canvas, done.summary, done.warnings.toList⟩
  | _, _ => ⟨canvas, ⟨0, 0, 0⟩, []⟩

end Metafile
