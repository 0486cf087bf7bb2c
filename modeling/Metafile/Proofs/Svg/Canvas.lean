import Metafile.Proofs.Surface.Lettering
import Metafile.Svg.Canvas

/-! What calls add to a canvas. Shapes are only ever added, and the texts among them are
those that the calls draw. -/

namespace Metafile.Svg

/-- The text of a shape with the font in which it is written. -/
def Shape.text? : Shape → Option (String × Lettering)
  | text content _ family size _ => some (content, ⟨family, size⟩)
  | _ => none

namespace Canvas

variable (c : Canvas)

def lettering : Lettering := ⟨c.family, c.fontSize⟩

/-- The texts on a canvas. -/
def texts : List (String × Lettering) := c.shapes.toList.filterMap Shape.text?

/-- The canvas behind more calls. -/
def after (calls : List Call) : Canvas := calls.foldl draw c

@[simp]
theorem texts_add (shape : Shape) : (c.add shape).texts = c.texts ++ shape.text?.toList := by
  cases hText : shape.text? <;> simp [texts, add, hText]

/-- A call changes the lettering of a canvas as it changes that of any surface. Saving and
restoring leave it alone. -/
theorem lettering_draw (call : Call) : (c.draw call).lettering = c.lettering.take call := by
  cases call with
  | strokePath | polyline _ | polygon _ | restoreState =>
      simp only [draw]
      split <;> rfl
  | _ => rfl

/-- Only a call that draws a text adds one, in the font of the moment. -/
theorem texts_draw (call : Call) :
    (c.draw call).texts = c.texts ++ (call.text?.map (·, c.lettering)).toList := by
  cases call with
  | fillBackground _ | fillRect _ | strokeRect _ | drawText _ _ => exact c.texts_add _
  | strokePath =>
      simp only [draw]
      split
      · exact (List.append_nil _).symm
      · exact c.texts_add _
  | polyline _ | polygon _ =>
      simp only [draw]
      split
      · exact (List.append_nil _).symm
      · exact c.texts_add _
  | restoreState =>
      simp only [draw]
      split <;> exact (List.append_nil _).symm
  | _ => exact (List.append_nil _).symm

/-- And so do any number of calls, one behind the other. -/
theorem lettering_after (calls : List Call) :
    (c.after calls).lettering = c.lettering.after calls := by
  induction calls generalizing c with
  | nil => rfl
  | cons call rest ih => exact (ih _).trans (congrArg (·.after rest) (c.lettering_draw call))

/-- Further calls add the texts among them and take none away. Each is in the lettering of its
own moment. -/
theorem texts_after (calls : List Call) :
    (c.after calls).texts = c.texts ++ c.lettering.texts calls := by
  induction calls generalizing c with
  | nil => exact (List.append_nil _).symm
  | cons call rest ih =>
      calc (c.after (call :: rest)).texts
        _ = (c.draw call).texts ++ (c.draw call).lettering.texts rest := ih _
        _ = c.texts ++ c.lettering.texts (call :: rest) := by
          rw [texts_draw, lettering_draw, Lettering.texts, List.append_assoc]

/-- Calls may be cut into two parts anywhere: the second is drawn on the canvas that the first
one leaves. -/
theorem ofCalls_append (first second : List Call) :
    ofCalls (first ++ second) = (ofCalls first).after second := List.foldl_append ..

end Canvas

end Metafile.Svg
