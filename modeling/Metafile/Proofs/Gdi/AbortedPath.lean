import Metafile.Proofs.Gdi.Stroke

/-! Paths that are given up. What a path takes up is not drawn, and when the path is given up
nothing is left of it but the current position. -/

namespace Metafile

namespace Gdi

/-- The action outlines a figure, or closes one: a path that is recording takes it up. -/
def Action.outlines : Action → Bool
  | .moveTo _ | .lineTo _ | .rectangle _ _ | .ellipse _ _ | .polyline _ | .polygon _
  | .polylineTo _ | .bezierTo _ | .closeFigure => true
  | _ => false

namespace Session

variable {s : Session} {action : Action} {path : Path}

/-- Moving to where the position is already changes nothing. -/
theorem moveTo_position (s : Session) : s.moveTo s.dc.position = s := rfl

/-- A shape adds a figure to a path that is recording and nothing else. It does not move the
position. -/
theorem exists_record_push (hPath : s.path = none) (hRecording : path.recording = true)
    (figure : Figure) :
    ∃ position, ∃ path' : Path, path'.recording = true ∧
      (s.record fun path => path.push figure) = s.moveTo position ∧
      ((s.withPath path).record fun path => path.push figure) =
        (s.moveTo position).withPath path' := by
  have hNone : s.isRecording = false := by rw [isRecording, hPath]; rfl
  refine ⟨s.dc.position, path.push figure, hRecording, ?_, ?_⟩
  · rw [record_eq_self _ hNone, moveTo_position]
  · rw [record_withPath s hRecording, moveTo_position]

/-- A line that goes on from the current position leads it to the same place whether or not
a path takes the line up. -/
theorem exists_continueTo (hPath : s.path = none) (hRecording : path.recording = true)
    (points : List (Point Float)) :
    ∃ position, ∃ path' : Path, path'.recording = true ∧
      s.continueTo points = s.moveTo position ∧
      (s.withPath path).continueTo points = (s.moveTo position).withPath path' := by
  have hNone : s.isRecording = false := by rw [isRecording, hPath]; rfl
  unfold continueTo
  cases points.getLast? with
  | none => exact ⟨s.dc.position, path, hRecording, rfl, rfl⟩
  | some last =>
      refine ⟨last, path.extend (s.place s.dc.position) (points.map s.place), ?_, ?_, ?_⟩
      · unfold Path.extend
        split <;> exact hRecording
      · dsimp only
        rw [record_eq_self _ hNone]
      · dsimp only
        rw [record_withPath s hRecording]
        rfl

/-- So does every action that outlines a figure. It moves the position alike with the path and
without it, and leaves the path recording. -/
theorem exists_step_outlines (hPath : s.path = none) (hRecording : path.recording = true)
    (hOutlines : action.outlines = true) :
    ∃ position, ∃ path' : Path, path'.recording = true ∧
      s.step action = s.moveTo position ∧
      (s.withPath path).step action = (s.moveTo position).withPath path' := by
  have hNone : s.isRecording = false := by rw [isRecording, hPath]; rfl
  cases action with
  | moveTo point =>
      refine ⟨point, path.push [s.place point], hRecording, ?_, ?_⟩
      · rw [step, record_eq_self _ hNone]
      · rw [step, record_withPath s hRecording]
        rfl
  | lineTo point => exact exists_continueTo hPath hRecording [point]
  | polylineTo points => exact exists_continueTo hPath hRecording points
  | bezierTo controls =>
      exact exists_continueTo hPath hRecording (Bezier.chain s.dc.position controls)
  | rectangle _ _ | ellipse _ _ => exact exists_record_push hPath hRecording _
  | polyline points | polygon points =>
      cases points with
      | nil => exact ⟨s.dc.position, path, hRecording, rfl, rfl⟩
      | cons first rest => exact exists_record_push hPath hRecording _
  | closeFigure =>
      refine ⟨s.dc.position, path.closeFigure, ?_, ?_, rfl⟩
      · unfold Path.closeFigure
        split <;> exact hRecording
      · rw [step, hPath, Option.map_none, ← hPath, moveTo_position]
  | _ => cases hOutlines

/-- A path that is recording takes outlines up and they are not drawn. -/
theorem draw_outlines (s : Session) (hRecording : path.recording = true)
    (hOutlines : action.outlines = true) : (s.withPath path).draw action = [] := by
  have hStill : (s.withPath path).isRecording = true := hRecording
  cases action with
  | moveTo _ | lineTo _ | rectangle _ _ | ellipse _ _ | polyline _ | polygon _ | polylineTo _
  | bezierTo _ | closeFigure => simp only [draw, hStill, if_true]
  | _ => cases hOutlines

/-- A path that records outlines draws nothing, and the session around it is the one that
they leave without a path, which only the current position tells from the first. -/
theorem exists_run_outlines (hPath : s.path = none) (hRecording : path.recording = true)
    {actions : List Action} (hOutlines : ∀ action ∈ actions, action.outlines = true) :
    plotter.calls (s.withPath path) actions = [] ∧
      ∃ position, ∃ path' : Path,
        plotter.run s actions = s.moveTo position ∧
        plotter.run (s.withPath path) actions = (s.moveTo position).withPath path' := by
  induction actions generalizing s path with
  | nil => exact ⟨rfl, s.dc.position, path, rfl, rfl⟩
  | cons action rest ih =>
      obtain ⟨hAction, hRest⟩ := List.forall_mem_cons.1 hOutlines
      obtain ⟨first, middle, hMiddle, hStep, hTaken⟩ :=
        exists_step_outlines hPath hRecording hAction
      have hStillNone : (s.moveTo first).path = none := hPath
      obtain ⟨hSilent, last, final, hRun, hFinal⟩ := ih hStillNone hMiddle hRest
      refine ⟨?_, last, final, ?_, ?_⟩
      · show (s.withPath path).draw action ++
          plotter.calls ((s.withPath path).step action) rest = []
        rw [draw_outlines s hRecording hAction, hTaken, hSilent, List.append_nil]
      · show plotter.run (s.step action) rest = _
        rw [hStep, hRun]
        rfl
      · show plotter.run ((s.withPath path).step action) rest = _
        rw [hTaken, hFinal]
        rfl

end Session

end Gdi

open Gdi

namespace Emf

/-- The kinds of records that outline figures or close them. -/
def Kind.outlines : Kind → Bool
  | .moveToEx | .lineTo | .rectangle | .roundRect | .ellipse | .polyline | .polyline16 | .polygon
  | .polygon16 | .polyLineTo | .polyLineTo16 | .polyBezier | .polyBezier16 | .polyBezierTo
  | .polyBezierTo16 | .polyPolyline | .polyPolyline16 | .polyPolygon | .polyPolygon16
  | .closeFigure => true
  | _ => false

/-- Records of the kinds that outline shapes ask for nothing but outlines, whatever their payload
holds. -/
theorem asks_outlines (limit : Nat) {kind : Kind} (hOutlines : kind.outlines = true) (p : Bytes) :
    Asks (fun action => action.outlines = true) (actions limit kind p) := by
  cases kind with
  | polyBezier | polyBezier16 => exact asks_bezier (fun _ => rfl) _
  | moveToEx | lineTo | rectangle | roundRect | ellipse | polyline | polyline16 | polygon
  | polygon16 | polyLineTo | polyLineTo16 | polyBezierTo | polyBezierTo16 | polyPolyline
  | polyPolyline16 | polyPolygon | polyPolygon16 | closeFigure =>
      simp only [actions, asks_bind, asks_singleton, asks_map]
      intros
      rfl
  | _ => cases hOutlines

variable {limit : Nat}

/-- A path that is given up draws nothing, and of everything that it took up only the
current position is left: it stands where the outlines lead it without a path. -/
theorem after_abortedPath {s : Session} (hPath : s.path = none) {opening aborting : Record}
    {outlines : List Record} (hOpening : Kind.ofCode? opening.opcode = some .beginPath)
    (hAborting : Kind.ofCode? aborting.opcode = some .abortPath)
    (hOutlines : ∀ r ∈ outlines, ∃ kind, Kind.ofCode? r.opcode = some kind ∧
      kind.outlines = true) :
    let d := dialect limit
    let bracket := opening :: (outlines ++ [aborting])
    d.drawn s bracket = [] ∧
      d.after s bracket =
        { s with dc := { s.dc with position := (d.after s outlines).dc.position } } := by
  intro d bracket
  have hActions : ∀ action ∈ actionsOf d.reading outlines, action.outlines = true := by
    refine Dialect.of_mem_actionsOf (fun kind p hTaken => asks_outlines limit hTaken p) ?_
    intro r hRecord kind hKind
    obtain ⟨named, hNamed, hTaken⟩ := hOutlines r hRecord
    cases hNamed.symm.trans hKind
    exact hTaken
  have hBracket : actionsOf d.reading bracket =
      [.beginPath] ++ actionsOf d.reading outlines ++ [.discardPath] := by
    simp [actionsOf, bracket, d, actions_of_kind hOpening fun _ => rfl,
      actions_of_kind hAborting fun _ => rfl]
  have hRecording : Path.opened.recording = true := rfl
  obtain ⟨hSilent, position, path, hDirect, hTaken⟩ :=
    Session.exists_run_outlines hPath hRecording hActions
  have hOpened : Session.plotter.run s [.beginPath] = s.withPath .opened := rfl
  have hGivenUp :
      Session.plotter.calls ((s.moveTo position).withPath path) [.discardPath] = [] := by
    simp [Plotter.calls, Session.plotter, Session.draw, Session.drawShape]
  unfold Dialect.drawn Dialect.after Plotter.drawn Plotter.after
  rw [hBracket, hDirect]
  refine ⟨?_, ?_⟩
  · rw [Plotter.calls_append, Plotter.calls_append, Plotter.run_append, hOpened, hSilent, hTaken,
      hGivenUp, Session.calls_beginPath]
    rfl
  · rw [Plotter.run_append, Plotter.run_append, hOpened, hTaken]
    show { (s.moveTo position) with path := none } = s.moveTo position
    rw [← hPath]
    rfl

/-- A path that takes up a rectangle, half a point, a line, a curve with a point too many and
the closing of a figure. The line and the curve lead the position to the end of the curve. -/
theorem after_abortedPath_mixedOutlines :
    let d := dialect 1
    let s := Session.initial .initial
    let opening : Record := ⟨0x3B, 8, 0, 108, #[]⟩
    let outlines : List Record :=
      [⟨0x2B, 24, 0, 116, #[1, 0, 0, 0, 1, 0, 0, 0, 9, 0, 0, 0, 9, 0, 0, 0]⟩,
        ⟨0x1B, 12, 0, 140, #[9, 0, 0, 0]⟩,
        ⟨0x36, 16, 0, 152, #[5, 0, 0, 0, 6, 0, 0, 0]⟩,
        ⟨0x58, 44, 0, 168,
          Array.replicate 16 0 ++ #[4, 0, 0, 0, 1, 0, 1, 0, 2, 0, 2, 0, 3, 0, 7, 0, 4, 0, 4, 0]⟩,
        ⟨0x3D, 8, 0, 212, #[]⟩]
    let aborting : Record := ⟨0x44, 8, 0, 220, #[]⟩
    let bracket := opening :: (outlines ++ [aborting])
    (∀ r ∈ outlines, ∃ kind, Kind.ofCode? r.opcode = some kind ∧ kind.outlines = true) ∧
      d.drawn s bracket = [] ∧
      d.after s bracket = { s with dc := { s.dc with position := ⟨3, 7⟩ } } := by
  intro d s opening outlines aborting bracket
  have hOutlines : ∀ r ∈ outlines, ∃ kind, Kind.ofCode? r.opcode = some kind ∧
      kind.outlines = true := by
    simp only [outlines, List.forall_mem_cons]
    exact ⟨⟨_, rfl, rfl⟩, ⟨_, rfl, rfl⟩, ⟨_, rfl, rfl⟩, ⟨_, rfl, rfl⟩, ⟨_, rfl, rfl⟩, nofun⟩
  have hPosition : (d.after s outlines).dc.position = ⟨3, 7⟩ := by decide +kernel
  obtain ⟨hDrawn, hAfter⟩ :=
    @after_abortedPath 1 s rfl opening aborting outlines rfl rfl hOutlines
  refine ⟨hOutlines, hDrawn, ?_⟩
  rw [hPosition] at hAfter
  exact hAfter

end Emf

end Metafile
