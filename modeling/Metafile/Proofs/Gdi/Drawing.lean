import Metafile.Gdi.Session

/-! Calls that draw shapes. Apart from actions about the context and from texts, actions
draw nothing else. -/

namespace Metafile

/-- Neither saves nor restores a state, nor has to do with texts. -/
def Call.isPlain : Call → Bool
  | saveState | restoreState | drawText _ _ | setFont _ _ => false
  | _ => true

namespace Gdi

/-- Neither saves nor restores the context, nor is a text. -/
def Action.isPlain : Action → Bool
  | .saveContext | .restoreContext _ | .text _ _ => false
  | _ => true

namespace Session

variable (s : Session)

section

variable {calls : List Call} (hPlain : calls.all Call.isPlain)

/-- Taking up a pen sets the style of strokes and does nothing else to the surface. -/
theorem plain_penCalls : s.penCalls.all Call.isPlain := by
  unfold penCalls
  split <;> rfl

theorem plain_brushCalls : s.brushCalls.all Call.isPlain := rfl

include hPlain

/-- Calls in the style of the pen are plain if they are plain themselves, also if the pen drops
them. -/
theorem plain_stroked : (s.stroked calls).all Call.isPlain := by
  unfold stroked
  rw [List.all_append, s.plain_penCalls]
  split
  · rfl
  · exact hPlain

theorem plain_filled : (s.filled calls).all Call.isPlain := by
  unfold filled
  rw [List.all_append, s.plain_brushCalls]
  split
  · rfl
  · exact hPlain

end

/-- Lines from the current position are drawn as one polyline. -/
theorem plain_drawLinesTo (points : List (Point Float)) :
    (s.drawLinesTo points).all Call.isPlain := by
  unfold drawLinesTo
  split
  · rfl
  · exact s.plain_stroked rfl

/-- Calls that are made of values one by one are plain if each of them is. -/
theorem plain_map {α : Type} {f : α → Call} (hCall : ∀ value, (f value).isPlain)
    (values : List α) : (values.map f).all Call.isPlain := by
  rw [List.all_map, List.all_eq_true]
  intro value hMem
  exact hCall value

/-- A shape outside a path is drawn by plain calls, whichever shape it is. -/
theorem plain_drawShape (action : Action) : (s.drawShape action).all Call.isPlain := by
  cases action with
  | lineTo point =>
      simp only [drawShape, List.all_append, s.plain_penCalls]
      rfl
  | rectangle corner opposite =>
      simp only [drawShape, List.all_append]
      rw [s.plain_filled rfl, s.plain_stroked rfl]
      rfl
  | ellipse corner opposite =>
      simp only [drawShape, List.all_append, s.plain_penCalls, s.plain_brushCalls]
      rfl
  | polyline points =>
      cases points with
      | nil => rfl
      | cons first rest => exact s.plain_stroked rfl
  | polygon points =>
      cases points with
      | nil => rfl
      | cons first rest =>
          simp only [drawShape, List.isEmpty_cons, Bool.false_eq_true, if_false, List.all_append,
            s.plain_penCalls, s.plain_brushCalls]
          rfl
  | polylineTo points => exact s.plain_drawLinesTo points
  | bezierTo controls => exact s.plain_drawLinesTo _
  | _ => rfl

/-- Plain actions draw by plain calls in every session. The others save or restore a state or set
a font. -/
theorem plain_draw {action : Action} (hPlain : action.isPlain) :
    (s.draw action).all Call.isPlain := by
  cases action with
  | saveContext | restoreContext _ | text _ _ => cases hPlain
  | setPixel point color => rfl
  | fillPath =>
      unfold draw
      dsimp only
      split
      · rfl
      · rw [List.all_append, s.plain_brushCalls, List.all_cons, plain_map fun _ => rfl]
        rfl
  | strokePath =>
      unfold draw
      dsimp only
      split
      · rfl
      · exact s.plain_stroked (plain_map (fun _ => rfl) _)
  | strokeAndFillPath =>
      unfold draw
      dsimp only
      split
      · rfl
      · rw [List.all_append, List.all_append, s.plain_brushCalls, s.plain_penCalls,
          plain_map fun _ => rfl]
        rfl
  | _ =>
      unfold draw
      dsimp only
      split
      · rfl
      · exact s.plain_drawShape _

/-- A text that is not empty is drawn in the font that is selected, or in that of the
surface if none is. -/
theorem draw_text {text : String} (hText : text.isEmpty = false) (reference : Point Float) :
    ∃ point, s.draw (.text text reference) =
      s.fontCalls ++ [.setFillColor s.dc.textColor, .drawText text point] := by
  refine ⟨s.place (if s.dc.textFromPosition then s.dc.position else reference), ?_⟩
  simp only [draw, hText, Bool.false_eq_true, if_false]

end Session

end Gdi

end Metafile
