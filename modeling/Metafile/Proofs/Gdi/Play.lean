import Metafile.Gdi.Play
import Metafile.Proofs.Gdi.Nesting
import Metafile.Proofs.Player

/-! The steps of WMF and EMF records as actions. Each of them reads and changes a player bit by
bit, and comes to the same as an action that is carried out at one go. -/

namespace Metafile.Gdi.Play

open Metafile.Play

variable {ω α : Type}

@[simp]
theorem run_session (player : Player ω) : session.run player = .ok player.gdi player := rfl

@[simp]
theorem run_change (f : Session → Session) (player : Player ω) :
    (change f).run player = .ok () { player with gdi := f player.gdi } := rfl

variable [Surface ω]

/-- The calls for a pen are made in any case, and the answer tells whether it draws. -/
@[simp]
theorem run_applyPen (player : Player ω) : applyPen.run player = .ok (!player.gdi.dc.pen.isNull)
    { player with canvas := Surface.receiveAll player.canvas player.gdi.penCalls } := by
  cases hNull : player.gdi.dc.pen.isNull <;> simp [applyPen, Session.penCalls, hNull]

/-- The call for a brush is made in any case, and the answer tells whether it paints. -/
@[simp]
theorem run_applyBrush (player : Player ω) :
    applyBrush.run player = .ok (!player.gdi.dc.brush.isNull)
      { player with canvas := Surface.receiveAll player.canvas player.gdi.brushCalls } := by
  cases hNull : player.gdi.dc.brush.isNull <;> simp [applyBrush, Session.brushCalls, hNull]

/-- The session of WMF and EMF records. -/
def seat : Seat ω Session where
  session := Player.gdi
  leave player s canvas := { player with canvas, gdi := s }
  session_leave _ _ _ := rfl
  canvas_leave _ _ _ := rfl
  handleLimit_leave _ _ _ := rfl
  leave_leave _ _ _ _ _ := rfl
  leave_same := Player.eta

def act : Action → Play ω Unit := seat.act Session.plotter

/-- Carried out in one step, an action draws in the session that it finds and leaves the one
behind it. -/
@[simp]
theorem run_act (action : Action) (player : Player ω) : (act action).run player = .ok ()
    { player with
      canvas := Surface.receiveAll player.canvas (player.gdi.draw action)
      gdi := player.gdi.step action } := rfl

/-- A step that changes the session alone is an action that draws nothing. -/
theorem change_eq_act {f : Session → Session} {action : Action}
    (hStep : ∀ s : Session, s.step action = f s) (hDraw : ∀ s : Session, s.draw action = []) :
    (change f : Play ω Unit) = act action :=
  ext fun player => by simp [hStep, hDraw]

/-- Actions that only change the session draw nothing, inside a path and outside. -/
theorem draw_eq_nil {s : Session} {action : Action}
    (hDraw : s.draw action = if s.isRecording then [] else s.drawShape action)
    (hShape : s.drawShape action = []) : s.draw action = [] := by
  rw [hDraw, hShape, ite_self]

/-- Changes of the mapping, of attributes, of objects and of the selection are single steps:
nothing is looked at in between and nothing is drawn. -/
theorem remap_eq (change : CoordinateMap.Change) :
    (remap change : Play ω Unit) = act (.remap change) :=
  change_eq_act (fun _ => rfl) fun _ => draw_eq_nil rfl rfl

theorem setAttribute_eq (value : Attribute) :
    (setAttribute value : Play ω Unit) = act (.setAttribute value) :=
  change_eq_act (fun _ => rfl) fun _ => draw_eq_nil rfl rfl

theorem create_eq (object : Object) : (create object : Play ω Unit) = act (.create object) :=
  change_eq_act (fun _ => rfl) fun _ => draw_eq_nil rfl rfl

theorem delete_eq (handle : Nat) : (delete handle : Play ω Unit) = act (.delete handle) :=
  change_eq_act (fun _ => rfl) fun _ => draw_eq_nil rfl rfl

theorem select_eq (handle : Nat) : (select handle : Play ω Unit) = act (.select handle) :=
  change_eq_act (fun _ => rfl) fun _ => draw_eq_nil rfl rfl

theorem setPath_eq {f : Option Path → Option Path} {action : Action}
    (hStep : ∀ s : Session, s.step action = { s with path := f s.path })
    (hDraw : ∀ s : Session, s.draw action = []) : (setPath f : Play ω Unit) = act action :=
  change_eq_act hStep hDraw

/-- An object is stored below the limit of the player, and refused with nothing done elsewhere. -/
theorem run_put (handle : Nat) (object : Object) (player : Player ω) :
    (put handle object).run player =
      if player.handleLimit ≤ handle then
        .error (.handleOutside handle player.handleLimit) player
      else (act (.put handle object)).run player := by
  by_cases hLimit : player.handleLimit ≤ handle
  · simp [put, hLimit]
  · have hQuiet : player.gdi.draw (.put handle object) = [] := draw_eq_nil rfl rfl
    simp [put, hLimit, hQuiet, Session.step]

/-- The context is put aside before the surface is told to save its state, which it never
learns. -/
theorem saveContext_eq : (saveContext : Play ω Unit) = act .saveContext := rfl

/-- Contexts that are brought back one by one leave the last of them in force. -/
theorem run_restoreTimes {newer older : List SavedContext} {context : SavedContext}
    {player : Player ω} (hSaved : player.gdi.saved = newer ++ context :: older) :
    (restoreTimes (newer.length + 1)).run player = .ok ()
      { player with
        canvas := Surface.receiveAll player.canvas
          (List.replicate (newer.length + 1) .restoreState)
        gdi := { player.gdi with dc := context.dc, map := context.map, saved := older } } := by
  induction newer generalizing player with
  | nil => simp [restoreTimes, restoreNewest, hSaved]
  | cons first newer ih =>
      rw [List.length_cons, restoreTimes, restoreNewest]
      simp [hSaved, ih, List.replicate_succ]

/-- A level that names a saved context brings back those down to it, and others do nothing. -/
theorem run_restoreContext (level : Int) (player : Player ω) :
    (restoreContext level).run player =
      match Session.depthAfterRestore? player.gdi.saved.length level with
      | none => .ok () player
      | some depth => (restoreTimes (player.gdi.saved.length - depth)).run player := by
  unfold Session.depthAfterRestore?
  by_cases hZero : level = 0
  · simp [restoreContext, hZero]
  · by_cases hOutside :
        (if level < 0 then (player.gdi.saved.length : Int) + level else level - 1) < 0 ∨
          player.gdi.saved.length ≤
            (if level < 0 then (player.gdi.saved.length : Int) + level else level - 1)
    · simp [restoreContext, hZero, hOutside]
    · simp [restoreContext, hZero, hOutside]

/-- Bringing contexts back one after the other, as long as there are more than the level leaves,
comes to dropping all of them at once. The states of the surface are restored one by one in
either case. -/
theorem restoreContext_eq (level : Int) :
    (restoreContext level : Play ω Unit) = act (.restoreContext level) := by
  refine ext fun player => ?_
  rw [run_restoreContext, run_act]
  cases hDepth : Session.depthAfterRestore? player.gdi.saved.length level with
  | none => simp [Session.step, Session.draw, Session.restore, hDepth]
  | some depth =>
      have hLess := Session.depthAfterRestore?_lt hDepth
      have hDrop := List.drop_eq_getElem_cons (l := player.gdi.saved)
        (i := player.gdi.saved.length - depth - 1) (by omega)
      have hSaved := (List.take_append_drop (player.gdi.saved.length - depth - 1)
        player.gdi.saved).symm
      rw [hDrop] at hSaved
      have hOlder : (player.gdi.saved.drop (player.gdi.saved.length - depth - 1 + 1)).length =
          depth := by
        rw [List.length_drop]
        omega
      have hNewer : (player.gdi.saved.take (player.gdi.saved.length - depth - 1)).length + 1 =
          player.gdi.saved.length - depth := by
        rw [List.length_take]
        omega
      rw [Session.step, Session.draw, hDepth]
      dsimp only
      rw [← hOlder] at hDepth
      rw [← hNewer, run_restoreTimes hSaved, Session.restore_eq hSaved hDepth]

variable (point corner opposite : Point Float) (points : List (Point Float))

/-- A move is drawn, or begins a figure if a path is recording, when the position has been changed
already. The mapping does not depend on the position, so that this makes no difference. -/
theorem moveTo_eq : (moveTo point : Play ω Unit) = act (.moveTo point) := by
  refine ext fun player => ?_
  cases hRecording : player.gdi.isRecording with
  | false =>
      simp [moveTo, hRecording, Session.step, Session.draw, Session.drawShape,
        Session.record_eq_self]
  | true => simp [moveTo, pushFigure, hRecording, Session.step, Session.draw, Session.record_moveTo]

/-- A line starts at the position before it, which has to be kept while the position is changed. -/
theorem lineTo_eq : (lineTo point : Play ω Unit) = act (.lineTo point) := by
  refine ext fun player => ?_
  cases hRecording : player.gdi.isRecording with
  | false =>
      simp [lineTo, hRecording, Session.step, Session.draw, Session.drawShape,
        Session.continueTo, Session.record_eq_self]
  | true =>
      simp [lineTo, hRecording, Session.step, Session.draw, Session.continueTo,
        Session.record_moveTo]

/-- The brush is taken up and the inside painted before the pen is taken up. -/
theorem rectangle_eq :
    (rectangle corner opposite : Play ω Unit) = act (.rectangle corner opposite) := by
  refine ext fun player => ?_
  cases hRecording : player.gdi.isRecording with
  | false =>
      cases hPen : player.gdi.dc.pen.isNull <;> cases hBrush : player.gdi.dc.brush.isNull <;>
        simp [rectangle, hRecording, hPen, hBrush, Session.step, Session.draw, Session.drawShape,
          Session.filled, Session.stroked, Session.record_eq_self]
  | true => simp [rectangle, pushFigure, hRecording, Session.step, Session.draw]

/-- An ellipse is drawn as one polygon in the style of both, even if one of them draws nothing. -/
theorem ellipse_eq :
    (ellipse corner opposite : Play ω Unit) = act (.ellipse corner opposite) := by
  refine ext fun player => ?_
  cases hRecording : player.gdi.isRecording with
  | false =>
      simp [ellipse, hRecording, Session.step, Session.draw, Session.drawShape,
        Session.record_eq_self, Session.brushCalls, Session.penCalls]
  | true => simp [ellipse, pushFigure, hRecording, Session.step, Session.draw]

theorem setPixel_eq (color : Color) :
    (setPixel point color : Play ω Unit) = act (.setPixel point color) := rfl

/-- Without points the pen is not taken up. With a recording path the points go into a figure of
their own. -/
theorem polyline_eq : (polyline points : Play ω Unit) = act (.polyline points) := by
  refine ext fun player => ?_
  cases points with
  | nil => simp [polyline, Session.step, Session.draw, Session.drawShape]
  | cons first rest =>
      cases hRecording : player.gdi.isRecording with
      | false =>
          cases hPen : player.gdi.dc.pen.isNull <;>
            simp [polyline, hRecording, hPen, Session.step, Session.draw, Session.drawShape,
              Session.stroked, Session.record_eq_self]
      | true => simp [polyline, pushFigure, hRecording, Session.step, Session.draw]

/-- A figure of a path is closed by its first point, and a polygon on the surface is closed by
itself. -/
theorem polygon_eq : (polygon points : Play ω Unit) = act (.polygon points) := by
  refine ext fun player => ?_
  cases points with
  | nil => simp [polygon, Session.step, Session.draw, Session.drawShape]
  | cons first rest =>
      cases hRecording : player.gdi.isRecording with
      | false =>
          simp [polygon, hRecording, Session.step, Session.draw, Session.drawShape,
            Session.record_eq_self]
      | true => simp [polygon, pushFigure, hRecording, Session.step, Session.draw]

/-- Lines from the current position, however an action describes them. -/
theorem polylineTo_eq_act {s : Session} {action : Action}
    (hStep : s.step action = s.continueTo points)
    (hDraw : s.draw action = if s.isRecording then [] else s.drawLinesTo points)
    {player : Player ω} (hSession : player.gdi = s) :
    (polylineTo points).run player = (act action).run player := by
  subst hSession
  cases hLast : points.getLast? with
  | none =>
      obtain rfl := List.getLast?_eq_none_iff.1 hLast
      simp [polylineTo, hStep, hDraw, Session.continueTo, Session.drawLinesTo]
  | some last =>
      have hSome : points ≠ [] := by
        rintro rfl
        cases hLast
      cases hRecording : player.gdi.isRecording with
      | false =>
          cases hPen : player.gdi.dc.pen.isNull <;>
            simp [polylineTo, hLast, hRecording, hPen, hSome, hStep, hDraw,
              Session.continueTo, Session.drawLinesTo, Session.stroked, Session.record_eq_self]
      | true =>
          simp [polylineTo, hLast, hRecording, hStep, hDraw, Session.continueTo,
            Session.record_moveTo]

/-- Lines are placed behind the change of the position, with the old position as their start. -/
theorem polylineTo_eq : (polylineTo points : Play ω Unit) = act (.polylineTo points) :=
  ext fun _ => polylineTo_eq_act points rfl rfl rfl

/-- The font is set in the size that the mapping gives it, and without a font nothing is set. -/
@[simp]
theorem run_applyFont (player : Player ω) : applyFont.run player = .ok ()
    { player with canvas := Surface.receiveAll player.canvas player.gdi.fontCalls } := by
  rw [applyFont, Session.fontCalls, EStateM.run_bind, run_session]
  dsimp only
  cases player.gdi.dc.font with
  | none => rfl
  | some font => rfl

/-- Text without characters is not drawn, and no font is set for it. -/
theorem run_text (content : String) (player : Player ω) :
    (text content point).run player = .ok ()
      { player with
        canvas := Surface.receiveAll player.canvas
          (if content.isEmpty then []
          else player.gdi.fontCalls ++ [.setFillColor player.gdi.dc.textColor,
            .drawText content (player.gdi.place point)]) } := by
  cases hEmpty : content.isEmpty <;> simp [text, hEmpty]

/-- The alignment tells whether the current position or the point of the record is used. The
position is not moved in either case. -/
theorem alignedText_eq (content : String) :
    (alignedText content point : Play ω Unit) = act (.text content point) := by
  refine ext fun player => ?_
  cases hAlign : player.gdi.dc.textFromPosition <;>
    simp [alignedText, run_text, hAlign, Session.step, Session.draw]

omit [Surface ω] in
/-- The path is gone before the first of its figures is drawn. -/
theorem run_renderPath (render : Path → Play ω Unit) (player : Player ω) :
    (renderPath render).run player =
      match player.gdi.path with
      | none => .ok () { player with gdi := { player.gdi with path := none } }
      | some path => (render path).run { player with gdi := { player.gdi with path := none } } := by
  cases hPath : player.gdi.path <;> simp [renderPath, setPath, hPath]

/-- A path that is taken away looks for no pen and no brush of its own. -/
@[simp]
theorem penCalls_withPath (s : Session) (path : Option Path) :
    { s with path }.penCalls = s.penCalls := rfl

@[simp]
theorem brushCalls_withPath (s : Session) (path : Option Path) :
    { s with path }.brushCalls = s.brushCalls := rfl

/-- Rendering takes the path away first. What is drawn behind it is what the figures of the path
come to in the style of the session, and without a path it is nothing. -/
theorem renderPath_eq {render : Path → Play ω Unit} {action : Action}
    (hStep : ∀ s : Session, s.step action = { s with path := none })
    (hNone : ∀ s : Session, s.path = none → s.draw action = [])
    (hRender : ∀ (path : Path) (player : Player ω), player.gdi.path = some path →
      (render path).run { player with gdi := { player.gdi with path := none } } = .ok ()
        { player with
          canvas := Surface.receiveAll player.canvas (player.gdi.draw action)
          gdi := { player.gdi with path := none } }) :
    renderPath render = act action := by
  refine ext fun player => ?_
  rw [run_renderPath, run_act, hStep]
  cases hPath : player.gdi.path with
  | none => rw [hNone _ hPath, Surface.receiveAll_nil]
  | some path => exact hRender path player hPath

/-- A path is stroked only if the pen draws, and is gone also if it does not. -/
theorem strokePath_eq : (strokePath : Play ω Unit) = act .strokePath := by
  refine renderPath_eq (fun _ => rfl) (fun s hNone => by simp [Session.draw, hNone]) ?_
  intro path player hPath
  cases hPen : player.gdi.dc.pen.isNull <;> simp [hPath, hPen, Session.draw, Session.stroked]

/-- A path is filled without an outline: strokes are made transparent behind the brush. -/
theorem fillPath_eq : (fillPath : Play ω Unit) = act .fillPath := by
  refine renderPath_eq (fun _ => rfl) (fun s hNone => by simp [Session.draw, hNone]) ?_
  intro path player hPath
  simp [hPath, Session.draw]

/-- Both are taken up, and each figure is drawn as one polygon. -/
theorem strokeAndFillPath_eq : (strokeAndFillPath : Play ω Unit) = act .strokeAndFillPath := by
  refine renderPath_eq (fun _ => rfl) (fun s hNone => by simp [Session.draw, hNone]) ?_
  intro path player hPath
  simp [hPath, Session.draw]

end Metafile.Gdi.Play
