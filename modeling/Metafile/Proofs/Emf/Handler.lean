import Metafile.Emf.Handler
import Metafile.Proofs.Gdi.Play

/-! What the handler of EMF records comes to. It does what the reading of a record asks for, and
the only thing that it takes from the player for this is how many handles there are. -/

namespace Metafile.Emf

open Play Gdi.Play

variable {ω : Type} [Surface ω]

/-- An object is stored once its bytes are there and its handle is below the limit. -/
theorem run_store (required : Nat) (p : Bytes) (object : Gdi.Object) (player : Player ω) :
    (do need p required; put (p.u32At 0) object).run player =
      (obey act (do p.need required; storing player.handleLimit p object)).run player := by
  rw [obey_bind, need, EStateM.run_bind, EStateM.run_bind, run_ofExcept]
  cases p.need required with
  | error fault => rfl
  | ok _ =>
      by_cases hLimit : player.handleLimit ≤ p.u32At 0
      · simp [run_put, storing, hLimit, obey_error]
      · rw [storing, if_neg hLimit]
        dsimp only
        rw [run_put, if_neg hLimit, obey_ok, forM_singleton]

/-- Curves that start at a point of their own are drawn as a polyline, and without any point
nothing is drawn. -/
theorem bezierThrough_eq (points : List (Point Float)) :
    (bezierThrough points : Play ω Unit) = forM (bezier points) act := by
  cases points with
  | nil => rfl
  | cons start controls => rw [bezier, forM_singleton, ← polyline_eq, bezierThrough]

/-- Curves from the current position are lines through their points behind it. -/
theorem bezierTo_eq (controls : List (Point Float)) :
    (bezierTo controls : Play ω Unit) = act (.bezierTo controls) := by
  refine ext fun player => ?_
  rw [bezierTo, EStateM.run_bind, Gdi.Play.run_session]
  exact polylineTo_eq_act _ rfl rfl rfl

/-- All that is checked about the place of a text is checked before the text is drawn. If one of
the checks fails the player has seen nothing of the record. -/
theorem placedText_eq (wide : Bool) (p : Bytes) : (placedText wide p : Play ω Unit) =
    obey act (do return [← extTextOut wide p]) := by
  unfold placedText extTextOut
  by_cases hHeader : p.u32At 40 < 8
  · simp only [hHeader, if_true, need, bind_assoc, obey_bind, ofExcept_throw, throw_bind]
  · by_cases hEnd : p.size < p.u32At 40 - 8 + if wide then 2 * p.u32At 36 else p.u32At 36
    · simp only [hHeader, hEnd, if_true, if_false, need, bind_assoc, obey_bind, ofExcept_throw,
        throw_bind]
    · simp only [hHeader, hEnd, if_false, need, bind_assoc, pure_bind, obey_bind, obey_pure,
        forM_singleton, alignedText_eq]

/-- A record of a known kind checks and reads all of its payload before it changes anything or
draws. -/
theorem run_carryOut (kind : Kind) (p : Bytes) (player : Player ω) :
    (carryOut kind p).run player = (obey act (actions player.handleLimit kind p)).run player := by
  cases kind with
  | createPen | extCreatePen | createBrushIndirect | extCreateFontIndirectW | createMonoBrush
  | createDibPatternBrushPt | createPalette | createColorSpace | createColorSpaceW =>
      exact run_store ..
  | extTextOutA | extTextOutW => exact congrArg (EStateM.run · player) (placedText_eq ..)
  | polyPolyline | polyPolyline16 =>
      simp only [carryOut, actions, obey_bind, obey_pure, List.forM_map, List.forM_eq_forM,
        ← polyline_eq]
  | polyPolygon | polyPolygon16 =>
      simp only [carryOut, actions, obey_bind, obey_pure, List.forM_map, List.forM_eq_forM,
        ← polygon_eq]
  | beginPath | endPath | closeFigure | abortPath | selectClipPath =>
      simp only [carryOut, actions, obey_pure, forM_singleton]
      exact congrArg (EStateM.run · player) (setPath_eq (fun _ => rfl) fun _ => draw_eq_nil rfl rfl)
  | _ =>
      simp only [carryOut, actions, need, obey_bind, obey_pure, forM_singleton, remap_eq,
        setAttribute_eq, select_eq, delete_eq, moveTo_eq, lineTo_eq, rectangle_eq,
        ellipse_eq, setPixel_eq, polyline_eq, polygon_eq, polylineTo_eq, bezierThrough_eq,
        bezierTo_eq, fillPath_eq, strokePath_eq, strokeAndFillPath_eq, saveContext_eq,
        restoreContext_eq, List.forM_nil]

/-- Handling a record is doing what the reading of it asks for with the limit of the player, and
ending as it says. -/
theorem run_handle (r : Record) (player : Player ω) :
    (handle r).run player = (follow act (reading player.handleLimit r)).run player := by
  unfold handle reading
  cases Kind.ofCode? r.opcode with
  | none => rfl
  | some kind =>
      show (do carryOut kind r.payload; return true).run player = _
      rw [EStateM.run_bind, run_carryOut, ← EStateM.run_bind, follow_ofExcept]

end Metafile.Emf
