import Metafile.Fault
import Metafile.Gdi.Session
import Metafile.Plus.Session
import Metafile.Record.Reading
import Metafile.Surface

/-! Players, and what is done on the way through a record. A player holds everything that a record
can read or change. The steps of a record are carried out one by one; a fault ends it where it
occurs, and what was changed and drawn up to there stays as it is. -/

namespace Metafile

structure Player (ω : Type) where
  canvas : ω
  gdi : Gdi.Session
  plus : Plus.Session
  /-- Handles in EMF records have to be below it. -/
  handleLimit : Nat

/-- Steps that change a player and find a value or a fault. -/
abbrev Play (ω : Type) := EStateM Fault (Player ω)

namespace Play

variable {ω : Type}

/-- What becomes of a record in a player. The steps of a record find whether it has a kind. -/
def outcome (x : Play ω Bool) (player : Player ω) : Outcome :=
  match x.run player with
  | .ok true _ => .done
  | .ok false _ => .unhandled
  | .error fault _ => .failed fault

/-- What steps leave of a player, whether or not they come to their end. -/
def after {α : Type} (x : Play ω α) (player : Player ω) : Player ω :=
  match x.run player with
  | .ok _ left => left
  | .error _ left => left

def call [Surface ω] (c : Call) : Play ω Unit :=
  modify fun player => { player with canvas := Surface.receive player.canvas c }

/-- Goes on only with as many bytes as required. -/
def need (payload : Bytes) (required : Nat) : Play ω Unit :=
  ofExcept (payload.need required)

end Play

end Metafile
