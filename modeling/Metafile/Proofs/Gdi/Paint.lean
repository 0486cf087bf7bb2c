import Metafile.Proofs.Gdi.Dialect
import Metafile.Proofs.Surface.Palette

/-! What WMF and EMF draw is painted from the context. Whatever paint earlier records left
on the surface, a record sets what its own calls need before it makes them. -/

namespace Metafile

namespace Gdi

/-- What a record paints with apart from the context: the colour of a pixel that it sets,
and whether its outlines are stroked. -/
structure Ink where
  pixel : Option Color
  stroked : Bool

def Ink.standard : Ink := ⟨none, true⟩

def Action.ink : Action → Ink
  | .setPixel _ color => ⟨some color, true⟩
  | .fillPath => ⟨none, false⟩
  | _ => .standard

/-- What a context paints with, the width of lines in numbers of the surface. -/
structure Tools where
  pen : Pen
  brush : Brush
  textColor : Color
  lineWidth : Float

namespace Tools

/-- The outline of a shape is stroked by the pen. A pen that draws nothing leaves it
transparent, and so does a record without outlines. -/
def Outlines (t : Tools) (ink : Ink) (paint : Paint) : Prop :=
  if ink.stroked && !t.pen.isNull then paint.stroke = t.pen.color ∧ paint.width = t.lineWidth
  else paint.stroke = .transparent

/-- A call that paints finds the paint that the context has for it. -/
def Paints (t : Tools) (ink : Ink) (paint : Paint) : Call → Prop
  | .fillRect _ => paint.fill = ink.pixel.getD t.brush.color
  | .strokeRect _ | .polyline _ => paint.stroke = t.pen.color ∧ paint.width = t.lineWidth
  | .strokePath => t.Outlines ink paint
  | .polygon _ =>
    paint.fill = (if t.brush.isNull then .transparent else t.brush.color) ∧ t.Outlines ink paint
  | .drawText _ _ => paint.fill = t.textColor
  | _ => True

end Tools

/-- Actions with the effect draw with the tools of the context and leave them as they are. -/
def Effect.paints : Effect → Bool
  | .line | .shape | .path => true
  | .nothing | .mapping | .attribute | .objects | .selection | .context => false

namespace Session

def tools (s : Session) : Tools where
  pen := s.dc.pen
  brush := s.dc.brush
  textColor := s.dc.textColor
  lineWidth := visibleWidth (s.map.scaleLength s.dc.pen.width).abs

/-- Lines change the position and the path, and nothing that a context paints with. -/
theorem tools_continueTo (s : Session) (points : List (Point Float)) :
    (s.continueTo points).tools = s.tools := by
  unfold continueTo
  split <;> rfl

/-- Actions that paint leave what they paint with as it is. So the tools may be taken from before
or behind them. -/
theorem tools_step (s : Session) {action : Action} (hPaints : action.effect.paints) :
    (s.step action).tools = s.tools := by
  cases action with
  | lineTo _ | polylineTo _ | bezierTo _ => exact s.tools_continueTo _
  | polyline points | polygon points => cases points <;> rfl
  | remap _ | setAttribute _ | create _ | put _ _ | delete _ | select _ | saveContext
  | restoreContext _ => cases hPaints
  | _ => rfl

section

variable (s : Session) (t : Tools) {ink : Ink} {p : Palette}

/-- Calls that set a style paint nothing, and are good for every paint. -/
theorem painted_penCalls : Painted (t.Paints ink) p s.penCalls := by
  unfold penCalls
  split <;> simp [Tools.Paints]

/-- The colour of areas is set by a call of its own, which paints nothing. -/
theorem painted_brushCalls : Painted (t.Paints ink) p s.brushCalls := by
  simp [brushCalls, Tools.Paints]

theorem painted_fontCalls : Painted (t.Paints ink) p s.fontCalls := by
  unfold fontCalls
  split <;> simp [Tools.Paints]

/-- Behind the calls of the pen outlines are stroked by it. -/
theorem outlines_penCalls (hStroked : ink.stroked = true) :
    s.tools.Outlines ink (p.after s.penCalls).paint := by
  cases hPen : s.dc.pen.isNull <;>
    simp [Tools.Outlines, tools, penCalls, hStroked, hPen, Palette.take]

/-- Taking up the pen keeps the colour of areas, so that the brush may be taken up before it. -/
theorem fill_penCalls : (p.after s.penCalls).paint.fill = p.paint.fill := by
  unfold penCalls
  split <;> rfl

/-- Behind the calls for the brush the colour of areas is that of the brush, or transparent if it
paints nothing. -/
theorem fill_brushCalls :
    (p.after s.brushCalls).paint.fill =
      if s.tools.brush.isNull then .transparent else s.tools.brush.color := rfl

/-- Lines and boxes in the style of the pen are left out if it draws nothing. -/
theorem painted_stroked {calls : List Call}
    (hCalls : ∀ p : Palette, p.paint.stroke = s.tools.pen.color →
      p.paint.width = s.tools.lineWidth → Painted (s.tools.Paints ink) p calls) :
    Painted (s.tools.Paints ink) p (s.stroked calls) := by
  refine painted_append.2 ⟨s.painted_penCalls _, ?_⟩
  cases hPen : s.dc.pen.isNull with
  | true => exact painted_nil
  | false => apply hCalls <;> simp [penCalls, hPen, tools, Palette.take]

/-- So are boxes in the style of a brush that paints nothing. -/
theorem painted_filled {calls : List Call}
    (hCalls : ∀ p : Palette, p.paint.fill = s.tools.brush.color →
      Painted (s.tools.Paints ink) p calls) :
    Painted (s.tools.Paints ink) p (s.filled calls) := by
  refine painted_append.2 ⟨s.painted_brushCalls _, ?_⟩
  cases hBrush : s.dc.brush.isNull with
  | true => exact painted_nil
  | false => exact hCalls _ (by simp [brushCalls, hBrush, tools, Palette.take])

/-- Polygons are filled by the brush and stroked by the pen, if the calls of both come
before them. -/
theorem painted_polygons (hStroked : ink.stroked = true) (figures : List (List (Point Float))) :
    Painted (s.tools.Paints ink) p
      (s.brushCalls ++ s.penCalls ++ figures.map Call.polygon) := by
  refine painted_append.2 ⟨painted_append.2 ⟨s.painted_brushCalls _, s.painted_penCalls _⟩, ?_⟩
  refine painted_map (fun _ _ => rfl) figures fun figure => ⟨?_, ?_⟩
  · rw [Palette.after_append, fill_penCalls, fill_brushCalls]
  · rw [Palette.after_append]
    exact s.outlines_penCalls hStroked

/-- The figures of a path are stroked in the style of the pen, all of them in the same. -/
theorem painted_polylines (figures : List (List (Point Float))) :
    Painted (s.tools.Paints ink) p (s.stroked (figures.map Call.polyline)) :=
  s.painted_stroked fun _ hStroke hWidth =>
    painted_map (fun _ _ => rfl) figures fun _ => ⟨hStroke, hWidth⟩

/-- Lines from the current position find the style of the pen, which their record sets in front
of them. -/
theorem painted_drawLinesTo (points : List (Point Float)) :
    Painted (s.tools.Paints ink) p (s.drawLinesTo points) := by
  unfold drawLinesTo
  split
  · exact painted_nil
  · exact s.painted_polylines [_]

/-- Whatever shape is drawn outside a path, its calls find the paint of the context. The paint
that the surface had before does not matter. -/
theorem painted_drawShape (action : Action) (p : Palette) :
    Painted (s.tools.Paints action.ink) p (s.drawShape action) := by
  cases action with
  | moveTo point => exact ⟨trivial, trivial⟩
  | lineTo point =>
      refine painted_append.2 ⟨s.painted_penCalls _, trivial, trivial, ?_, trivial⟩
      exact s.outlines_penCalls rfl
  | rectangle corner opposite =>
      refine painted_append.2 ⟨s.painted_filled fun p hFill => ?_, s.painted_stroked ?_⟩
      · exact ⟨hFill, trivial⟩
      · exact fun p hStroke hWidth => ⟨⟨hStroke, hWidth⟩, trivial⟩
  | ellipse corner opposite => exact s.painted_polygons rfl [_]
  | polyline points =>
      cases points with
      | nil => trivial
      | cons first rest => exact s.painted_polylines [_]
  | polygon points =>
      cases points with
      | nil => trivial
      | cons first rest => exact s.painted_polygons rfl [_]
  | polylineTo points | bezierTo controls => exact s.painted_drawLinesTo _
  | _ => trivial

/-- Actions that do not paint at most save and restore states. -/
theorem painted_draw_idle {action : Action} (hPaints : action.effect.paints = false) :
    Painted (t.Paints ink) p (s.draw action) := by
  cases action with
  | saveContext => exact ⟨trivial, trivial⟩
  | restoreContext level =>
      unfold draw
      dsimp only
      split
      · trivial
      · refine painted_of_forall fun call hMem paint => ?_
        rw [List.eq_of_mem_replicate hMem]
        trivial
  | remap _ | setAttribute _ | create _ | put _ _ | delete _ | select _ =>
      simp only [draw, drawShape, ite_self, painted_nil]
  | _ => cases hPaints

/-- An action sets the paint for its calls, whatever the palette was. -/
theorem painted_draw (action : Action) (p : Palette) :
    Painted (s.tools.Paints action.ink) p (s.draw action) := by
  cases action with
  | setPixel point color => exact ⟨trivial, rfl, trivial⟩
  | text text reference =>
      unfold draw
      dsimp only
      split
      · trivial
      · exact painted_append.2 ⟨s.painted_fontCalls _, trivial, rfl, trivial⟩
  | saveContext | restoreContext _ => exact s.painted_draw_idle _ rfl
  | fillPath =>
      unfold draw
      dsimp only
      split
      · trivial
      · refine painted_append.2 ⟨s.painted_brushCalls _, trivial, ?_⟩
        exact painted_map (fun _ _ => rfl) _ fun _ => ⟨rfl, rfl⟩
  | strokePath =>
      unfold draw
      dsimp only
      split
      · trivial
      · exact s.painted_polylines _
  | strokeAndFillPath =>
      unfold draw
      dsimp only
      split
      · trivial
      · exact s.painted_polygons rfl _
  | _ =>
      unfold draw
      dsimp only
      split
      · trivial
      · exact s.painted_drawShape _ _

end

/-- The actions of a record are about one thing and paint with the tools that it found. -/
theorem painted_calls {s : Session} {t : Tools} {effect : Effect} {ink : Ink}
    (hTools : effect.paints → s.tools = t) {actions : List Action}
    (hActions : ∀ action ∈ actions, action.effect = effect ∧ action.ink = ink) (p : Palette) :
    Painted (t.Paints ink) p (plotter.calls s actions) := by
  induction actions generalizing s p with
  | nil => trivial
  | cons action rest ih =>
      obtain ⟨⟨rfl, rfl⟩, hRest⟩ := List.forall_mem_cons.1 hActions
      refine painted_append.2 ⟨?_, ih ?_ hRest _⟩
      · show Painted _ p (s.draw action)
        cases hPaints : action.effect.paints with
        | true =>
            rw [← hTools hPaints]
            exact s.painted_draw action p
        | false => exact s.painted_draw_idle t hPaints
      · intro hPaints
        rw [← hTools hPaints]
        exact s.tools_step hPaints

end Session

end Gdi

open Gdi

namespace Wmf

/-- What a record of a kind paints with apart from the context. -/
def Kind.ink (kind : Kind) (p : Bytes) : Ink :=
  match kind with
  | .setPixel => ⟨some (.ofColorref (p.u32At 0)), true⟩
  | _ => .standard

/-- All actions of a record are in the ink of its kind, in WMF as in EMF. -/
theorem asks_ink (kind : Kind) (p : Bytes) :
    Asks (fun action => action.ink = kind.ink p) (actions kind p) := by
  cases kind with
  | textOut => exact asks_textOut (fun _ _ => rfl) p
  | extTextOut => exact asks_extTextOut (fun _ _ => rfl) p
  | _ => simp only [actions, asks_bind, asks_nil, asks_singleton, asks_map] <;> intros <;> rfl

end Wmf

namespace Emf

/-- What a record of a kind paints with apart from the context. -/
def Kind.ink (kind : Kind) (p : Bytes) : Ink :=
  match kind with
  | .setPixelV => ⟨some (colorAt p 8), true⟩
  | .fillPath => ⟨none, false⟩
  | _ => .standard

/-- With pixels the payload decides on the ink, as it holds their colour. -/
theorem asks_ink (limit : Nat) (kind : Kind) (p : Bytes) :
    Asks (fun action => action.ink = kind.ink p) (actions limit kind p) := by
  cases kind with
  | polyBezier | polyBezier16 => exact asks_bezier (fun _ => rfl) _
  | extTextOutA | extTextOutW => exact asks_extTextOut (fun _ _ => rfl) _ p
  | createPen | extCreatePen | createBrushIndirect | extCreateFontIndirectW | createMonoBrush
  | createDibPatternBrushPt | createPalette | createColorSpace | createColorSpaceW =>
      exact asks_bind.2 fun _ _ => asks_storing fun _ => rfl
  | _ => simp only [actions, asks_bind, asks_nil, asks_singleton, asks_map] <;> intros <;> rfl

end Emf

/-- What a record paints with apart from the context. -/
def Format.ink (format : Format) (r : Record) : Ink :=
  match format with
  | .emf => ((Emf.Kind.ofCode? r.opcode).map fun kind => kind.ink r.payload).getD .standard
  | _ =>
    ((Wmf.Kind.ofCode? (r.opcode % 0x10000)).map fun kind => kind.ink r.payload).getD .standard

/-- So the record alone tells with what its actions are to be drawn. -/
theorem Format.ink_eq {format : Format} {header : Header} {r : Record} {action : Action}
    (hMem : action ∈ ((format.dialect header).reading r).actions) :
    action.ink = format.ink r := by
  cases format with
  | emf =>
      unfold dialect at hMem
      rw [Emf.reading_dialect, Emf.reading] at hMem
      unfold ink
      cases hKind : Emf.Kind.ofCode? r.opcode with
      | none =>
          rw [hKind] at hMem
          cases hMem
      | some kind =>
          rw [hKind] at hMem
          exact (Emf.asks_ink header.handleLimit kind r.payload).of_mem hMem
  | placeableWmf | wmf | emfPlus | unknown =>
      unfold dialect at hMem
      rw [Wmf.reading_dialect, Wmf.reading] at hMem
      unfold ink
      cases hKind : Wmf.Kind.ofCode? (r.opcode % 0x10000) with
      | none =>
          rw [hKind] at hMem
          cases hMem
      | some kind =>
          rw [hKind] at hMem
          exact (Wmf.asks_ink kind r.payload).of_mem hMem

/-- A record paints with the tools of the context that it finds, whatever the palette was. -/
theorem Format.painted_drawn (format : Format) (header : Header) (s : Session) (r : Record)
    (p : Palette) :
    Painted (s.tools.Paints (format.ink r)) p ((format.dialect header).drawn s [r]) := by
  have hActions : ∀ action ∈ ((format.dialect header).reading r).actions,
      action.effect = (format.dialect header).effectOf r ∧ action.ink = format.ink r :=
    fun action hMem => ⟨Dialect.effect_eq hMem, ink_eq hMem⟩
  rw [Dialect.drawn, Plotter.drawn_cons]
  exact painted_append.2 ⟨Session.painted_calls (fun _ => rfl) hActions p, painted_nil⟩

/-- The calls of a record are painted with the tools of the context that it found, in a
replay of any records before and behind it, on a surface with any palette. -/
theorem Picture.painted_replay {format : Format} (hFormat : format.isGdi) (header : Header)
    (before behind : List Record) (r : Record) (error : Option HeaderError) (o : Replay.Options)
    (start : Palette) :
    let d := format.dialect header
    let s := d.after (.initial header.initialMap) before
    let earlier := (Picture.replay ⟨format, some header, before, error⟩ o).calls
    (Picture.replay ⟨format, some header, before ++ r :: behind, error⟩ o).calls =
        earlier ++ d.drawn s [r] ++ d.drawn (d.after s [r]) behind ∧
      ∀ first call rest, d.drawn s [r] = first ++ call :: rest →
        s.tools.Paints (format.ink r) (start.after (earlier ++ first)).paint call := by
  intro d s earlier
  refine ⟨?_, ?_⟩
  · have hSplit : before ++ r :: behind = before ++ ([r] ++ behind) := rfl
    simp only [earlier, calls_replay_of_isGdi hFormat, hSplit, Dialect.drawn_append,
      List.append_assoc, d, s]
  · intro first call rest hDrawn
    rw [Palette.after_append]
    exact (format.painted_drawn header s r (start.after earlier)).paint_of_eq hDrawn

/-- A polygon behind a red pixel, with a pen that draws nothing: it is filled by the brush
of the context and not in red, and has no outline. -/
theorem painted_replay_nullPen :
    let header : Header := .wmf ⟨none, 1, 9, 0x300, 0, 0, 0, 0⟩
    let pen : Record := ⟨0x2FA, 8, 0, 18, #[5, 0, 1, 0, 0, 0, 0, 0, 0, 0]⟩
    let select : Record := ⟨0x12D, 4, 0, 34, #[0, 0]⟩
    let pixel : Record := ⟨0x41F, 7, 0, 42, #[255, 0, 0, 0, 1, 0, 1, 0]⟩
    let polygon : Record := ⟨0x324, 8, 0, 56, #[2, 0, 1, 0, 1, 0, 9, 0, 9, 0]⟩
    let before := [pen, select, pixel]
    let d := Format.wmf.dialect header
    let s := d.after (.initial header.initialMap) before
    let earlier := (Picture.replay ⟨.wmf, some header, before, none⟩ .standard).calls
    let start : Palette := ⟨⟨.black, .black, 1⟩, []⟩
    Format.wmf.isGdi ∧ ∃ points,
      d.drawn s [polygon] = s.brushCalls ++ s.penCalls ++ [.polygon points] ∧
        let paint := (start.after (earlier ++ (s.brushCalls ++ s.penCalls))).paint
        paint.fill = .white ∧ paint.stroke = .transparent := by
  intro header pen select pixel polygon before d s earlier start
  have hRecording : s.isRecording = false := rfl
  let corners : List (Point Float) := Layout.shortPoint.list polygon.payload 2 2
  have hActions : (d.reading polygon).actions = [.polygon corners] := rfl
  have hDrawn : d.drawn s [polygon] =
      s.brushCalls ++ s.penCalls ++ [.polygon (corners.map s.place)] := by
    rw [Dialect.drawn, Plotter.drawn_cons, hActions]
    show s.draw (.polygon corners) ++ [] ++ [] = _
    rw [List.append_nil, List.append_nil]
    unfold Session.draw
    dsimp only
    rw [hRecording]
    rfl
  have hBrush : s.tools.brush.isNull = false := by decide +kernel
  have hWhite : s.tools.brush.color = .white := by decide +kernel
  have hPen : s.tools.pen.isNull = true := by decide +kernel
  have hPaints : s.tools.Paints (Format.wmf.ink polygon)
      (start.after (earlier ++ (s.brushCalls ++ s.penCalls))).paint
      (.polygon (corners.map s.place)) :=
    (@Picture.painted_replay .wmf rfl header before [] polygon none .standard start).2 _ _ [] hDrawn
  simp only [Tools.Paints, Tools.Outlines, hBrush, hWhite, hPen, Bool.not_true, Bool.and_false,
    Bool.false_eq_true, if_false] at hPaints
  exact ⟨rfl, _, hDrawn, hPaints⟩

end Metafile
