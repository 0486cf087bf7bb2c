import Metafile.Surface.Call

/-! The paint of a surface. Colours and the line width are set, saved and restored by
calls, and a call that draws is painted with those that the calls before it left. -/

namespace Metafile

/-- What shapes are painted with. -/
structure Paint where
  fill : Color
  stroke : Color
  width : Float

/-- The paint of a moment and the saved ones, the newest one first. -/
structure Palette where
  paint : Paint
  saved : List Paint

namespace Palette

/-- What a call makes of a palette. Without a saved paint nothing is restored. -/
def take (p : Palette) : Call → Palette
  | .setFillColor color => { p with paint := { p.paint with fill := color } }
  | .setStrokeColor color => { p with paint := { p.paint with stroke := color } }
  | .setLineWidth width => { p with paint := { p.paint with width := width } }
  | .saveState => { p with saved := p.paint :: p.saved }
  | .restoreState =>
    match p.saved with
    | [] => p
    | paint :: older => ⟨paint, older⟩
  | _ => p

/-- The palette behind calls. -/
def after (p : Palette) (calls : List Call) : Palette := calls.foldl take p

variable (p : Palette)

@[simp]
theorem after_nil : p.after [] = p := rfl

/-- The first call leaves the paint that the others find. -/
@[simp]
theorem after_cons (call : Call) (rest : List Call) :
    p.after (call :: rest) = (p.take call).after rest := rfl

/-- Calls may be cut into two parts anywhere: the second part finds the paint that the first one
leaves. -/
@[simp]
theorem after_append (first second : List Call) :
    p.after (first ++ second) = (p.after first).after second := List.foldl_append ..

end Palette

/-- Each of the calls is good for the paint that it finds, on a surface with the palette. -/
def Painted (good : Paint → Call → Prop) : Palette → List Call → Prop
  | _, [] => True
  | p, call :: rest => good p.paint call ∧ Painted good (p.take call) rest

section

variable {good : Paint → Call → Prop} {p : Palette}

@[simp]
theorem painted_nil : Painted good p [] := trivial

/-- The first call is judged by the paint that it finds, and the others by what it leaves. -/
@[simp]
theorem painted_cons {call : Call} {rest : List Call} :
    Painted good p (call :: rest) ↔ good p.paint call ∧ Painted good (p.take call) rest := Iff.rfl

/-- Two parts are judged one after the other. The second part is judged by the paint behind the
first, not by that at the start. -/
@[simp]
theorem painted_append {first second : List Call} :
    Painted good p (first ++ second) ↔
      Painted good p first ∧ Painted good (p.after first) second := by
  induction first generalizing p with
  | nil => simp
  | cons call rest ih => simp [ih, and_assoc]

/-- A call is painted with what the calls before it left. -/
theorem Painted.paint_of_eq {calls first rest : List Call} {call : Call}
    (hPainted : Painted good p calls) (hCalls : calls = first ++ call :: rest) :
    good (p.after first).paint call := by
  subst hCalls
  exact (painted_append.1 hPainted).2.1

/-- Calls that leave the palette as it is are all painted alike. -/
theorem painted_map {α : Type} {f : α → Call} (hKeep : ∀ p value, Palette.take p (f value) = p)
    (values : List α) (hGood : ∀ value, good p.paint (f value)) :
    Painted good p (values.map f) := by
  induction values with
  | nil => trivial
  | cons value rest ih =>
      refine ⟨hGood value, ?_⟩
      rw [hKeep]
      exact ih

/-- Calls that are good for any paint are painted well by whatever paint they find. -/
theorem painted_of_forall {calls : List Call} (hGood : ∀ call ∈ calls, ∀ paint, good paint call) :
    Painted good p calls := by
  induction calls generalizing p with
  | nil => trivial
  | cons call rest ih =>
      obtain ⟨hCall, hRest⟩ := List.forall_mem_cons.1 hGood
      exact ⟨hCall p.paint, ih hRest⟩

end

end Metafile
