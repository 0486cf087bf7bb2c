import Metafile.Proofs.Gdi.Play
import Metafile.Wmf.Handler

/-! What the handler of WMF records comes to. Whatever the player is, it does what the reading of a
record asks for. -/

namespace Metafile.Wmf

open Play Gdi.Play

variable {ω : Type} [Surface ω]

/-- A record of a known kind checks and reads all of its payload before it changes anything or
draws. -/
theorem carryOut_eq (kind : Kind) (p : Bytes) :
    (carryOut kind p : Play ω Unit) = obey act (actions kind p) := by
  cases kind with
  | textOut =>
      simp only [carryOut, actions, textOut, need, bind_assoc, pure_bind, obey_bind, obey_pure,
        forM_singleton, alignedText_eq]
  | extTextOut =>
      simp only [carryOut, actions, extTextOut, bind_assoc, pure_bind, obey_bind, obey_pure,
        forM_singleton, alignedText_eq, need_twice, ite_self]
      rfl
  | polyPolygon =>
      simp only [carryOut, actions, obey_bind, obey_pure, List.forM_map, List.forM_eq_forM,
        ← polygon_eq]
  | _ =>
      simp only [carryOut, actions, need, obey_bind, obey_pure, forM_singleton, remap_eq,
        setAttribute_eq, create_eq, select_eq, delete_eq, moveTo_eq, lineTo_eq, rectangle_eq,
        ellipse_eq, setPixel_eq, polyline_eq, polygon_eq, saveContext_eq, restoreContext_eq,
        List.forM_nil]

/-- Handling a record is doing what the reading of it asks for, and ending as it says. -/
theorem handle_eq (r : Record) : (handle r : Play ω Bool) = follow act (reading r) := by
  unfold handle reading
  cases Kind.ofCode? (r.opcode % 0x10000) with
  | none => rfl
  | some kind =>
      show (do carryOut kind r.payload; return true) = _
      rw [carryOut_eq, follow_ofExcept]

end Metafile.Wmf
