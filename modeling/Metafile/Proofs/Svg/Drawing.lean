import Metafile.Proofs.Surface.Drawing
import Metafile.Proofs.Svg.Canvas

/-! What a canvas makes of the calls that it receives. A canvas keeps a style, saved styles
and a path that is not finished. All of it is determined by the calls so far, and so is the
shape of a call that shows something. -/

namespace Metafile

/-- What a call adds to a path. -/
def Call.segment? : Call → Option Svg.Segment
  | moveTo point => some (.move point)
  | lineTo point => some (.line point)
  | _ => none

namespace Drawing

open Svg (Stroke Shape Node)

variable (d : Drawing)

def stroke : Stroke := ⟨d.paint.stroke, d.paint.width⟩

/-- The shape that stands for the call. -/
def shape? : Option Shape :=
  match d.call with
  | .fillBackground color => some (.filledBox ⟨0, 0, d.size.width, d.size.height⟩ color)
  | .strokePath => some (.path (d.trace.filterMap Call.segment?) d.stroke)
  | .fillRect box => some (.filledBox box d.paint.fill)
  | .strokeRect box => some (.outlinedBox box d.stroke)
  | .polyline points => some (.polyline points d.stroke)
  | .polygon points => some (.polygon points d.paint.fill d.stroke)
  | .drawText text point =>
    some (.text text point d.lettering.family d.lettering.size d.paint.fill)
  | _ => none

/-- The colour that a shape is filled with. Lines and outlines are not filled. -/
def fill? : Option Color :=
  match d.call with
  | .fillBackground color => some color
  | .fillRect _ | .polygon _ | .drawText _ _ => some d.paint.fill
  | _ => none

/-- The stroke of a shape. Areas and texts are only filled. -/
def stroke? : Option Stroke :=
  match d.call with
  | .strokePath | .strokeRect _ | .polyline _ | .polygon _ => some d.stroke
  | _ => none

end Drawing

namespace Svg

/-- The value of an attribute. -/
def Node.attribute? (name : String) : Node → Option String
  | .text _ => none
  | .element _ attributes _ => attributes.lookup name

/-- The attributes of an element tell the fill and the stroke of the drawing. -/
theorem attributes_of_shape? {d : Drawing} {shape : Shape} (hShape : d.shape? = some shape) :
    shape.node.attribute? "fill" = some (d.fill?.elim "none" paint) ∧
      shape.node.attribute? "stroke" = d.stroke?.map (paint ·.color) ∧
      shape.node.attribute? "stroke-width" = d.stroke?.map (Decimal.text ·.width) := by
  obtain ⟨before, call⟩ := d
  cases call <;> cases hShape <;> exact ⟨rfl, rfl, rfl⟩

namespace Segment

/-- The lines that a pen draws on its way from a point. -/
def linesFrom (pen : Point Float) : List Segment → List (Point Float × Point Float)
  | [] => []
  | .move point :: rest => linesFrom point rest
  | .line point :: rest => (pen, point) :: linesFrom point rest

/-- The lines that are drawn along a path. A path begins with a move. -/
def lines : List Segment → List (Point Float × Point Float)
  | .move point :: rest => linesFrom point rest
  | _ => []

section

variable {idle : List Call} (hIdle : ∀ call ∈ idle, call.tracesPath = false)
  (start stop : Point Float)

include hIdle

/-- Moves that nothing is drawn from do not add to the lines of a path. -/
theorem linesFrom_append_line (pen : Point Float) :
    linesFrom pen ((idle ++ [Call.moveTo start, .lineTo stop]).filterMap Call.segment?) =
      [(start, stop)] := by
  induction idle generalizing pen with
  | nil => rfl
  | cons call rest ih =>
      obtain ⟨hCall, hRest⟩ := List.forall_mem_cons.1 hIdle
      cases call with
      | lineTo _ => cases hCall
      | moveTo point => exact ih hRest point
      | _ => exact ih hRest pen

/-- Moves alone draw nothing, at the beginning of a path as well. -/
theorem lines_append_line :
    lines ((idle ++ [Call.moveTo start, .lineTo stop]).filterMap Call.segment?) =
      [(start, stop)] := by
  induction idle with
  | nil => rfl
  | cons call rest ih =>
      obtain ⟨hCall, hRest⟩ := List.forall_mem_cons.1 hIdle
      cases call with
      | lineTo _ => cases hCall
      | moveTo point => exact linesFrom_append_line hRest start stop point
      | _ => exact ih hRest

end

end Segment

namespace Canvas

variable (c : Canvas)

/-- The paint of a style. -/
def palette : Palette :=
  let paint (s : Style) : Paint := ⟨s.fill, s.stroke.color, s.stroke.width⟩
  ⟨paint c.style, c.saved.map paint⟩

/-- A call changes the paint of a canvas, with the saved paints, as it changes a palette. This is
the step of which the next lemmas are the run. -/
theorem palette_draw (call : Call) : (c.draw call).palette = c.palette.take call := by
  cases call with
  | strokePath | polyline _ | polygon _ =>
      simp only [draw]
      split <;> rfl
  | restoreState =>
      cases hSaved : c.saved <;> simp [draw, palette, Palette.take, hSaved]
  | _ => rfl

theorem size_draw (call : Call) : (c.draw call).size = call.size?.getD c.size := by
  cases call with
  | strokePath | polyline _ | polygon _ | restoreState =>
      simp only [draw]
      split <;> rfl
  | _ => rfl

/-- The last call is drawn on what the calls before it leave. The lemmas below are proved by
induction from this end. -/
theorem ofCalls_concat (calls : List Call) (call : Call) :
    ofCalls (calls ++ [call]) = (ofCalls calls).draw call :=
  ofCalls_append calls [call]

/-- The paint of a canvas is determined by its calls alone. -/
theorem palette_ofCalls (calls : List Call) :
    (ofCalls calls).palette = Palette.after ⟨⟨.white, .black, 1⟩, []⟩ calls := by
  induction calls using List.reverseRecOn with
  | nil => rfl
  | append_singleton calls call ih =>
      rw [ofCalls_concat, palette_draw, ih, Palette.after_append]
      rfl

/-- Its size is the last one that was set. -/
theorem size_ofCalls (calls : List Call) :
    (ofCalls calls).size = (calls.filterMap Call.size?).getLast?.getD ⟨0, 0⟩ := by
  induction calls using List.reverseRecOn with
  | nil => rfl
  | append_singleton calls call ih =>
      rw [ofCalls_concat, size_draw, ih, List.filterMap_append]
      cases hSize : call.size? <;> simp [hSize]

/-- And its lettering is determined by its calls as well. -/
theorem lettering_ofCalls (calls : List Call) :
    (ofCalls calls).lettering = Lettering.after ⟨"Arial", 12⟩ calls :=
  empty.lettering_after calls

/-- The path that is not finished holds what the calls since the last stroke have added. -/
def Traces (before : List Call) : Prop :=
  (ofCalls before).path.toList = (Call.sinceStroke before).filterMap Call.segment?

theorem traces_nil : Traces [] := by
  simp [Traces, Call.sinceStroke, ofCalls, empty]

/-- The calls behind others add the shapes of the drawings among them. -/
def Adds (before calls : List Call) : Prop :=
  (ofCalls (before ++ calls)).shapes.toList.map some =
    (ofCalls before).shapes.toList.map some ++
      (Drawing.among before calls).map Drawing.shape?

section

variable {before : List Call} {call : Call} (hTraces : Traces before)
  (hStart : call.tracesPath → (ofCalls before).path ≠ #[])

include hTraces hStart

/-- The calls of a path go on adding to it, and a stroke begins anew. A path must have begun for
that, as a canvas drops a line without a start. -/
theorem traces_concat : Traces (before ++ [call]) := by
  unfold Traces at *
  rw [ofCalls_concat, Call.sinceStroke_concat]
  cases call with
  | lineTo point =>
      have hPath := hStart rfl
      simp [draw, hPath, hTraces, Call.isStrokePath, Call.segment?]
  | strokePath =>
      have hPath := hStart rfl
      simp [draw, hPath, Call.isStrokePath]
  | polyline _ | polygon _ | restoreState =>
      simp only [draw]
      split <;> simp [hTraces, add, Call.isStrokePath, Call.segment?]
  | _ => simp [draw, hTraces, add, Call.isStrokePath, Call.segment?]

/-- A call adds its shape if it shows something, and nothing otherwise. -/
theorem adds_singleton : Adds before [call] := by
  have hPalette := congrArg Palette.paint (palette_ofCalls before)
  have hFill : (ofCalls before).style.fill = (Drawing.mk before call).paint.fill :=
    congrArg Paint.fill hPalette
  have hStroke : (ofCalls before).style.stroke = (Drawing.mk before call).stroke :=
    congrArg (fun paint => Stroke.mk paint.stroke paint.width) hPalette
  have hSize : (ofCalls before).size = (Drawing.mk before call).size := size_ofCalls before
  have hTrace : (ofCalls before).path.toList =
      (Drawing.mk before call).trace.filterMap Call.segment? := hTraces
  unfold Adds
  rw [ofCalls_concat]
  cases call with
  | strokePath =>
      have hPath := hStart rfl
      simp [draw, hPath, add, Drawing.among, Drawing.shape?, Call.shows, hStroke, hTrace]
  | polyline points | polygon points =>
      by_cases hLength : points.length < 2
      · simp [draw, hLength, Drawing.among, Call.shows]
      · simp [draw, hLength, add, Drawing.among, Drawing.shape?, Call.shows, hFill, hStroke,
          Nat.le_of_not_lt hLength]
  | drawText text point =>
      have hFamily : (ofCalls before).family = _ :=
        congrArg Lettering.family (lettering_ofCalls before)
      have hFontSize : (ofCalls before).fontSize = _ :=
        congrArg Lettering.size (lettering_ofCalls before)
      simp [draw, add, Drawing.among, Drawing.shape?, Call.shows, Drawing.lettering, hFill,
        hFamily, hFontSize]
  | restoreState =>
      simp only [draw]
      split <;> simp [Drawing.among, Call.shows]
  | _ => simp [draw, add, Drawing.among, Drawing.shape?, Call.shows, hFill, hStroke, hSize]

/-- A call adds its shape, and the calls behind it are drawn on what it leaves. -/
theorem adds_cons {rest : List Call} (hRest : Adds (before ++ [call]) rest) :
    Adds before (call :: rest) := by
  have hFirst := adds_singleton hTraces hStart
  unfold Adds at *
  rw [List.append_cons, hRest, hFirst]
  simp [Drawing.among]

end

/-- Calls that draw their lines one by one add the shapes of their drawings. -/
theorem adds_of_lineByLine {before calls : List Call}
    (hCalls : LineByLine (·.tracesPath = false) calls) (hTraces : Traces before) :
    Adds before calls := by
  induction hCalls generalizing before with
  | nil => simp [Adds, Drawing.among]
  | @call call rest hPath _ ih =>
      have hStart : call.tracesPath → (ofCalls before).path ≠ #[] := by simp [hPath]
      exact adds_cons hTraces hStart (ih (traces_concat hTraces hStart))
  | line start stop _ ih =>
      -- The path is not empty when the line is drawn and when it is stroked.
      have hMove : (Call.moveTo start).tracesPath → (ofCalls before).path ≠ #[] := by
        simp [Call.tracesPath]
      have hLine : (Call.lineTo stop).tracesPath →
          (ofCalls (before ++ [.moveTo start])).path ≠ #[] := by
        simp [ofCalls_concat, draw]
      have hStroke : Call.strokePath.tracesPath →
          (ofCalls (before ++ [.moveTo start] ++ [.lineTo stop])).path ≠ #[] := by
        rw [ofCalls_concat]
        simp [draw]
      have hMoved := traces_concat hTraces hMove
      have hLined := traces_concat hMoved hLine
      apply adds_cons hTraces hMove
      apply adds_cons hMoved hLine
      apply adds_cons hLined hStroke
      exact ih (traces_concat hLined hStroke)

/-- The shapes on a canvas are those of the drawings among its calls, in their order. This needs
lines that are drawn one by one, so that no path is left open. -/
theorem shapes_ofCalls {calls : List Call} (hCalls : LineByLine (·.tracesPath = false) calls) :
    (ofCalls calls).shapes.toList.map some = (Drawing.among [] calls).map Drawing.shape? :=
  adds_of_lineByLine hCalls traces_nil

end Canvas

/-- The path of a stroke draws the lines since the last stroke, each from the point that is
moved to right before it, and no others. -/
theorem lines_of_shape? {calls : List Call} (hCalls : LineByLine (·.tracesPath = false) calls)
    {d : Drawing} (hMem : d ∈ Drawing.among [] calls) {segments : List Segment} {stroke : Stroke}
    (hShape : d.shape? = some (.path segments stroke)) :
    Segment.lines segments = Call.lines d.trace ∧
      (Call.lines d.trace).map Prod.snd = d.trace.filterMap Call.lineTo? := by
  have hCall : d.call = .strokePath ∧ d.trace.filterMap Call.segment? = segments := by
    obtain ⟨before, call⟩ := d
    cases call with
    | strokePath =>
        cases hShape
        exact ⟨rfl, rfl⟩
    | _ => cases hShape
  obtain ⟨hStroke, rfl⟩ := hCall
  obtain ⟨idle, start, stop, hTrace, hIdle⟩ :=
    Drawing.trace_of_mem hCalls (List.forall_mem_nil _) hMem hStroke
  rw [hTrace, Segment.lines_append_line hIdle, Call.lines_append_line hIdle,
    Call.filterMap_lineTo?_append_line hIdle]
  exact ⟨rfl, rfl⟩

end Svg

end Metafile
