import Metafile.Proofs.Gdi.Dialect
import Metafile.Proofs.Gdi.Frame

/-! Lines drawn by way of a path. Moves, lines and curves that are recorded in a path and
stroked with it draw the segments that they draw without one, and leave the same session
behind. -/

namespace Metafile

abbrev Segment := Point Float × Point Float

/-- The segments between consecutive points. -/
def segmentsThrough (points : List (Point Float)) : List Segment := points.zip points.tail

/-- The segments that calls draw, in their order: one for each stroked line, and those
through the points of each polyline. -/
def segmentsDrawn : List Call → List Segment
  | .moveTo start :: .lineTo finish :: .strokePath :: rest => (start, finish) :: segmentsDrawn rest
  | .polyline points :: rest => segmentsThrough points ++ segmentsDrawn rest
  | _ :: rest => segmentsDrawn rest
  | [] => []

/-- Points behind the last one are reached from it. -/
theorem segmentsThrough_append {points more : List (Point Float)} {last : Point Float}
    (hLast : points.getLast? = some last) :
    segmentsThrough (points ++ more) =
      segmentsThrough points ++ segmentsThrough (last :: more) := by
  induction points with
  | nil => cases hLast
  | cons first rest ih =>
      cases rest with
      | nil =>
          cases hLast
          rfl
      | cons second rest =>
          rw [List.getLast?_cons_cons] at hLast
          exact congrArg ((first, second) :: ·) (ih hLast)

theorem segmentsThrough_of_length_lt {points : List (Point Float)} (hLength : points.length < 2) :
    segmentsThrough points = [] := by
  cases points with
  | nil => rfl
  | cons first rest =>
      cases rest with
      | nil => rfl
      | cons second rest =>
          simp only [List.length_cons] at hLength
          omega

/-- A move begins a line only if the line follows at once. -/
theorem segmentsDrawn_moveTo {calls : List Call} (point : Point Float)
    (hCalls : ∀ finish rest, calls ≠ .lineTo finish :: rest) :
    segmentsDrawn (.moveTo point :: calls) = segmentsDrawn calls := by
  cases calls with
  | nil => rfl
  | cons call rest =>
      cases call with
      | lineTo finish => exact absurd rfl (hCalls finish rest)
      | _ => rfl

namespace Gdi

namespace Path

/-- A path that is recording and holds the segments that were drawn, the newest figure
ending at the current position. Only a path without figures ends nowhere. -/
structure Follows (path : Path) (position : Point Float) (drawn : List Segment) : Prop where
  recording : path.recording = true
  segments_eq : path.figures.reverse.flatMap segmentsThrough = drawn
  ends : ∀ newest ∈ path.figures.head?, newest.getLast? = some position

variable {path : Path} {position : Point Float} {drawn : List Segment}

/-- A path that has just been opened follows any position, with nothing drawn. -/
theorem follows_opened (position : Point Float) : opened.Follows position [] :=
  ⟨rfl, rfl, nofun⟩

/-- A move begins a figure of one point, which adds no segment and follows from there. -/
theorem Follows.push (hFollows : path.Follows position drawn) (point : Point Float) :
    (path.push [point]).Follows point drawn where
  recording := hFollows.recording
  segments_eq := by
    simp [Path.push, hFollows.segments_eq, segmentsThrough]
  ends := by
    rintro newest ⟨⟩
    rfl

/-- Lines go on from the newest figure, and the segments that they add to it are those that they
would have drawn. This needs the figure to end at the position, which is what following means. -/
theorem Follows.extend (hFollows : path.Follows position drawn) {points : List (Point Float)}
    {last : Point Float} (hLast : points.getLast? = some last) :
    (path.extend position points).Follows last
      (drawn ++ segmentsThrough (position :: points)) := by
  obtain ⟨figures, recording⟩ := path
  obtain ⟨hRecording, hSegments, hEnds⟩ := hFollows
  cases figures with
  | nil =>
      refine ⟨hRecording, ?_, ?_⟩
      · simp [Path.extend, ← hSegments]
      · rintro newest ⟨⟩
        rw [List.getLast?_cons, hLast]
        rfl
  | cons newest earlier =>
      have hNewest : newest.getLast? = some position := hEnds newest rfl
      refine ⟨hRecording, ?_, ?_⟩
      · simp [Path.extend, ← hSegments, segmentsThrough_append hNewest]
      · rintro extended ⟨⟩
        simp [hLast]

/-- Figures of a single point are not rendered, and they have no segments. -/
theorem flatMap_rendered (path : Path) :
    (path.rendered 2).flatMap segmentsThrough = path.figures.reverse.flatMap segmentsThrough := by
  unfold rendered
  induction path.figures.reverse with
  | nil => rfl
  | cons figure rest ih =>
      by_cases hLength : 2 ≤ figure.length
      · simp [hLength, ih]
      · simp [hLength, ih, segmentsThrough_of_length_lt (Nat.lt_of_not_le hLength)]

end Path

namespace Session

variable {s : Session} {action : Action} {path : Path} {drawn : List Segment}

/-- The session with another path. -/
def withPath (s : Session) (path : Path) : Session := { s with path := some path }

/-- What is recorded goes into the path that is recording, and the rest of the session stays. -/
theorem record_withPath (s : Session) (hRecording : path.recording = true) (f : Path → Path) :
    (s.withPath path).record f = s.withPath (f path) := by
  simp [withPath, record, hRecording]

/-- The points through which an action leads a line from the current position. -/
def route (s : Session) : Action → List (Point Float)
  | .lineTo point => [point]
  | .polylineTo points => points
  | .bezierTo controls => Bezier.chain s.dc.position controls
  | _ => []

/-- An action about lines is a move or a chain of lines from the current position. -/
theorem moveTo_or_continueTo (hLine : action.effect = .line) :
    (∃ point, action = .moveTo point) ∨
      ∀ s : Session, s.step action = s.continueTo (s.route action) := by
  cases action with
  | moveTo point => exact .inl ⟨point, rfl⟩
  | lineTo _ | polylineTo _ | bezierTo _ => exact .inr fun _ => rfl
  | _ => cases hLine

/-- Outside a path lines do nothing to the session but move the position. -/
theorem exists_step_eq_moveTo (hRecording : s.isRecording = false) (hLine : action.effect = .line) :
    ∃ position, s.step action = s.moveTo position := by
  rcases moveTo_or_continueTo hLine with ⟨point, rfl⟩ | hContinue
  · refine ⟨point, ?_⟩
    rw [step, record_eq_self _ hRecording]
  · rw [hContinue, continueTo]
    cases (s.route action).getLast? with
    | none => exact ⟨s.dc.position, rfl⟩
    | some last =>
        refine ⟨last, ?_⟩
        dsimp only
        rw [record_eq_self _ hRecording]

section Segments

theorem segmentsDrawn_penCalls (s : Session) (calls : List Call) :
    segmentsDrawn (s.penCalls ++ calls) = segmentsDrawn calls := by
  unfold penCalls
  split <;> rfl

/-- With a pen that draws, the segments of a polyline are those between its points. -/
theorem segmentsDrawn_drawLinesTo (hPen : s.dc.pen.isNull = false) (points : List (Point Float))
    (rest : List Call) :
    segmentsDrawn (s.drawLinesTo points ++ rest) =
      segmentsThrough ((s.dc.position :: points).map s.place) ++ segmentsDrawn rest := by
  cases points with
  | nil => rfl
  | cons first others =>
      simp [drawLinesTo, stroked, hPen, segmentsDrawn_penCalls, segmentsDrawn]

/-- Outside a path a line is drawn at once, from the current position. -/
theorem segmentsDrawn_draw (hRecording : s.isRecording = false) (hPen : s.dc.pen.isNull = false)
    (hLine : action.effect = .line) {rest : List Call}
    (hRest : ∀ finish more, rest ≠ .lineTo finish :: more) :
    segmentsDrawn (s.draw action ++ rest) =
      segmentsThrough ((s.dc.position :: s.route action).map s.place) ++ segmentsDrawn rest := by
  cases action with
  | moveTo point =>
      simp [draw, hRecording, drawShape, segmentsDrawn_moveTo _ hRest, route, segmentsThrough]
  | lineTo point =>
      simp [draw, hRecording, drawShape, segmentsDrawn_penCalls, segmentsDrawn, route,
        segmentsThrough]
  | polylineTo _ | bezierTo _ =>
      simp only [draw, hRecording, Bool.false_eq_true, if_false, drawShape]
      exact segmentsDrawn_drawLinesTo hPen _ _
  | _ => cases hLine

/-- The calls for a pen start with the colour of its strokes, so that they are never taken for a
line. -/
theorem penCalls_eq_cons (s : Session) :
    ∃ color rest, s.penCalls = .setStrokeColor color :: rest := by
  unfold penCalls
  split
  · exact ⟨_, _, rfl⟩
  · exact ⟨_, _, rfl⟩

/-- No action starts with half a line. The segments of its calls can so be counted by
themselves. -/
theorem draw_ne_lineTo (hLine : action.effect = .line) (finish : Point Float) (rest : List Call) :
    s.draw action ≠ .lineTo finish :: rest := by
  obtain ⟨color, more, hPen⟩ := s.penCalls_eq_cons
  cases action with
  | moveTo _ | lineTo _ =>
      cases hRecording : s.isRecording <;> simp [draw, hRecording, drawShape, hPen]
  | polylineTo points =>
      cases points <;> cases hRecording : s.isRecording <;>
        simp [draw, hRecording, drawShape, drawLinesTo, stroked, hPen]
  | bezierTo controls =>
      cases hChain : Bezier.chain s.dc.position controls <;> cases hRecording : s.isRecording <;>
        simp [draw, hRecording, drawShape, drawLinesTo, stroked, hPen, hChain]
  | _ => cases hLine

/-- The calls of several such actions have no line to a point either, as each action finds a
session from which it draws none. -/
theorem calls_ne_lineTo {actions : List Action} (hLines : ∀ action ∈ actions, action.effect = .line)
    (finish : Point Float) (rest : List Call) :
    plotter.calls s actions ≠ .lineTo finish :: rest := by
  induction actions generalizing s with
  | nil => nofun
  | cons action more ih =>
      obtain ⟨hLine, hMore⟩ := List.forall_mem_cons.1 hLines
      show s.draw action ++ plotter.calls (s.step action) more ≠ _
      cases hDraw : s.draw action with
      | nil => exact ih hMore
      | cons call others =>
          intro hCalls
          obtain ⟨rfl, -⟩ := List.cons.inj hCalls
          exact draw_ne_lineTo hLine finish others hDraw

end Segments

/-- Two sessions that differ in the path only continue a line alike, and a path that
follows the position keeps doing so. -/
theorem exists_follows_continueTo (hRecording : s.isRecording = false)
    (hFollows : path.Follows (s.place s.dc.position) drawn) (points : List (Point Float)) :
    ∃ path' : Path, (s.withPath path).continueTo points = (s.continueTo points).withPath path' ∧
      path'.Follows ((s.continueTo points).place (s.continueTo points).dc.position)
        (drawn ++ segmentsThrough ((s.dc.position :: points).map s.place)) := by
  cases hLast : points.getLast? with
  | none =>
      obtain rfl := List.getLast?_eq_none_iff.1 hLast
      refine ⟨path, rfl, ?_⟩
      simpa [continueTo, segmentsThrough] using hFollows
  | some last =>
      refine ⟨path.extend (s.place s.dc.position) (points.map s.place), ?_, ?_⟩
      · simp only [continueTo, hLast, record_withPath s hFollows.recording,
          record_eq_self _ hRecording]
        rfl
      · have hEnd : (points.map s.place).getLast? = some (s.place last) := by
          rw [List.getLast?_map, hLast]
          rfl
        have hExtended := hFollows.extend hEnd
        simpa [continueTo, hLast, record_eq_self _ hRecording] using hExtended

/-- One step of both runs: what an action about lines draws outside a path is added to the path
inside it, and the path follows the new position. -/
theorem exists_follows_step (hRecording : s.isRecording = false) (hLine : action.effect = .line)
    (hFollows : path.Follows (s.place s.dc.position) drawn) :
    ∃ path' : Path, (s.withPath path).step action = (s.step action).withPath path' ∧
      path'.Follows ((s.step action).place (s.step action).dc.position)
        (drawn ++ segmentsThrough ((s.dc.position :: s.route action).map s.place)) := by
  rcases moveTo_or_continueTo hLine with ⟨point, rfl⟩ | hContinue
  · refine ⟨path.push [s.place point], ?_, ?_⟩
    · rw [step, step, record_withPath s hFollows.recording, record_eq_self _ hRecording]
      rfl
    · have hPushed := hFollows.push (s.place point)
      simpa [step, route, segmentsThrough, record_eq_self _ hRecording] using hPushed
  · rw [hContinue, hContinue]
    exact exists_follows_continueTo hRecording hFollows (s.route action)

/-- A path that is recording takes lines up and they are not drawn. -/
theorem draw_withPath (s : Session) (hRecording : path.recording = true)
    (hLine : action.effect = .line) : (s.withPath path).draw action = [] := by
  have hStill : (s.withPath path).isRecording = true := hRecording
  cases action with
  | moveTo _ | lineTo _ | polylineTo _ | bezierTo _ => simp only [draw, hStill, if_true]
  | _ => cases hLine

/-- A path that records a run follows the position and collects what the run draws
outside a path, while nothing is drawn. -/
theorem exists_follows_run (hRecording : s.isRecording = false) (hPen : s.dc.pen.isNull = false)
    (hFollows : path.Follows (s.place s.dc.position) drawn) {actions : List Action}
    (hLines : ∀ action ∈ actions, action.effect = .line) :
    plotter.calls (s.withPath path) actions = [] ∧
      ∃ path' : Path,
        plotter.run (s.withPath path) actions = (plotter.run s actions).withPath path' ∧
          path'.Follows ((plotter.run s actions).place (plotter.run s actions).dc.position)
            (drawn ++ segmentsDrawn (plotter.calls s actions)) := by
  induction actions generalizing s path drawn with
  | nil =>
      refine ⟨rfl, path, rfl, ?_⟩
      simpa [Plotter.run, Plotter.calls, segmentsDrawn] using hFollows
  | cons action rest ih =>
      obtain ⟨hLine, hRest⟩ := List.forall_mem_cons.1 hLines
      obtain ⟨middle, hStep, hMiddle⟩ := exists_follows_step hRecording hLine hFollows
      obtain ⟨position, hMoved⟩ := exists_step_eq_moveTo hRecording hLine
      have hStillNot : (s.step action).isRecording = false := by
        rw [hMoved]
        exact hRecording
      have hSamePen : (s.step action).dc.pen.isNull = false := by
        rw [hMoved]
        exact hPen
      obtain ⟨hSilent, final, hRun, hFinal⟩ := ih hStillNot hSamePen hMiddle hRest
      refine ⟨?_, final, ?_, ?_⟩
      · show (s.withPath path).draw action ++
          plotter.calls ((s.withPath path).step action) rest = []
        rw [draw_withPath s hFollows.recording hLine, hStep, hSilent, List.append_nil]
      · show plotter.run ((s.withPath path).step action) rest = _
        rw [hStep, hRun]
        rfl
      · show final.Follows _ (drawn ++ segmentsDrawn
          (s.draw action ++ plotter.calls (s.step action) rest))
        rw [segmentsDrawn_draw hRecording hPen hLine (calls_ne_lineTo hRest), ← List.append_assoc]
        exact hFinal

/-- Outside a path a run of lines does nothing to the session but move the position. -/
theorem exists_run_eq_moveTo (hRecording : s.isRecording = false) {actions : List Action}
    (hLines : ∀ action ∈ actions, action.effect = .line) :
    ∃ position, plotter.run s actions = s.moveTo position := by
  induction actions generalizing s with
  | nil => exact ⟨s.dc.position, rfl⟩
  | cons action rest ih =>
      obtain ⟨hLine, hRest⟩ := List.forall_mem_cons.1 hLines
      obtain ⟨first, hStep⟩ := exists_step_eq_moveTo hRecording hLine
      have hStillNot : (s.step action).isRecording = false := by
        rw [hStep]
        exact hRecording
      obtain ⟨last, hRun⟩ := ih hStillNot hRest
      refine ⟨last, ?_⟩
      show plotter.run (s.step action) rest = _
      rw [hRun, hStep]
      rfl

theorem calls_beginPath (s : Session) : plotter.calls s [.beginPath] = [] := by
  simp [Plotter.calls, plotter, draw, drawShape]

/-- Behind the path the pen is taken up once, and then the figures are drawn one by one. -/
theorem calls_end_stroke (hPen : s.dc.pen.isNull = false) (path : Path) :
    plotter.calls (s.withPath path) [.endPath, .strokePath] =
      s.penCalls ++ (path.rendered 2).map Call.polyline := by
  have hEnd : (s.withPath path).draw .endPath = [] := by simp [draw, drawShape]
  have hStroke : ((s.withPath path).step .endPath).draw .strokePath =
      s.stroked ((path.rendered 2).map Call.polyline) := rfl
  show (s.withPath path).draw .endPath ++
    (((s.withPath path).step .endPath).draw .strokePath ++ []) = _
  rw [hEnd, hStroke, stroked, hPen]
  simp

/-- A stroked path draws the segments of its lines, and apart from the path it leaves what
the lines leave. -/
theorem calls_strokedPath (hRecording : s.isRecording = false) (hPen : s.dc.pen.isNull = false)
    {actions : List Action} (hLines : ∀ action ∈ actions, action.effect = .line) :
    let stroked := .beginPath :: (actions ++ [.endPath, .strokePath])
    plotter.calls (s.step .beginPath) actions = [] ∧
      (∃ figures : List Figure,
        plotter.calls s stroked = s.penCalls ++ figures.map Call.polyline ∧
          figures.flatMap segmentsThrough = segmentsDrawn (plotter.calls s actions)) ∧
      plotter.run s stroked = { plotter.run s actions with path := none } := by
  intro stroked
  obtain ⟨hSilent, path, hRun, hFollows⟩ :=
    exists_follows_run hRecording hPen (Path.follows_opened _) hLines
  obtain ⟨position, hMoved⟩ := exists_run_eq_moveTo hRecording hLines
  have hPath : plotter.run s [.beginPath] = s.withPath .opened := rfl
  have hStroked : stroked = [.beginPath] ++ actions ++ [.endPath, .strokePath] := by
    simp [stroked]
  refine ⟨hSilent, ⟨path.rendered 2, ?_, ?_⟩, ?_⟩
  · have hSamePen : (s.moveTo position).dc.pen.isNull = false := hPen
    rw [hStroked, Plotter.calls_append, Plotter.calls_append, Plotter.run_append, hPath, hSilent,
      hRun, hMoved, calls_end_stroke hSamePen, calls_beginPath]
    rfl
  · rw [Path.flatMap_rendered, hFollows.segments_eq, List.nil_append]
  · rw [hStroked, Plotter.run_append, Plotter.run_append, hPath, hRun]
    rfl

end Session

end Gdi

open Gdi

namespace Emf

variable {limit : Nat}

/-- A record that asks for one action whatever its payload is cannot fail. -/
theorem actions_of_kind {r : Record} {kind : Kind} (hKind : Kind.ofCode? r.opcode = some kind)
    {action : Action} (hActions : ∀ p, actions limit kind p = .ok [action]) :
    ((dialect limit).reading r).actions = [action] := by
  rw [reading_dialect, reading, hKind]
  dsimp only
  rw [hActions]
  rfl

/-- Lines between the start and the end of a path draw nothing. Stroking the path with a
pen draws polylines that have the segments which the lines draw without a path, in the
same order, and leaves the session that the lines alone leave, but for the path. -/
theorem drawn_strokedPath {s : Session} (hRecording : s.isRecording = false)
    (hPen : s.dc.pen.isNull = false) {opening ending stroking : Record} {lines : List Record}
    (hOpening : Kind.ofCode? opening.opcode = some .beginPath)
    (hEnding : Kind.ofCode? ending.opcode = some .endPath)
    (hStroking : Kind.ofCode? stroking.opcode = some .strokePath)
    (hLines : ∀ r ∈ lines, (dialect limit).effectOf r = .line) :
    let d := dialect limit
    d.drawn (d.after s [opening]) lines = [] ∧
      (∃ figures : List Figure,
        d.drawn s (opening :: (lines ++ [ending, stroking])) =
            s.penCalls ++ figures.map Call.polyline ∧
          figures.flatMap segmentsThrough = segmentsDrawn (d.drawn s lines)) ∧
      d.after s (opening :: (lines ++ [ending, stroking])) =
        { d.after s lines with path := none } := by
  intro d
  have hActions : ∀ action ∈ actionsOf d.reading lines, action.effect = .line := by
    intro action hMem
    obtain ⟨r, hRecord, hAction⟩ := List.mem_flatMap.1 hMem
    exact (Dialect.effect_eq hAction).trans (hLines r hRecord)
  have hStroked : actionsOf d.reading (opening :: (lines ++ [ending, stroking])) =
      .beginPath :: (actionsOf d.reading lines ++ [.endPath, .strokePath]) := by
    simp [actionsOf, d, actions_of_kind hOpening fun _ => rfl, actions_of_kind hEnding fun _ => rfl,
      actions_of_kind hStroking fun _ => rfl]
  have hOpened : d.after s [opening] = s.step .beginPath := by
    rw [d.after_cons, actions_of_kind hOpening fun _ => rfl]
    rfl
  rw [hOpened]
  unfold Dialect.drawn Dialect.after Plotter.drawn Plotter.after
  rw [hStroked]
  exact Session.calls_strokedPath hRecording hPen hActions

/-- A path that starts with a line from the initial position, and then holds a move that
cannot be read, two lines at once and a curve with a point too many. -/
theorem drawn_strokedPath_mixedLines :
    let d := dialect 1
    let s := Session.initial .initial
    let opening : Record := ⟨0x3B, 8, 0, 108, #[]⟩
    let lines : List Record := [⟨0x36, 16, 0, 116, #[5, 0, 0, 0, 6, 0, 0, 0]⟩,
      ⟨0x1B, 12, 0, 132, #[9, 0, 0, 0]⟩,
      ⟨0x59, 36, 0, 144, Array.replicate 16 0 ++ #[2, 0, 0, 0, 1, 0, 2, 0, 3, 0, 4, 0]⟩,
      ⟨0x58, 44, 0, 180,
        Array.replicate 16 0 ++ #[4, 0, 0, 0, 1, 0, 1, 0, 2, 0, 2, 0, 3, 0, 3, 0, 4, 0, 4, 0]⟩]
    let ending : Record := ⟨0x3C, 8, 0, 224, #[]⟩
    let stroking : Record := ⟨0x40, 8, 0, 232, #[]⟩
    s.isRecording = false ∧ s.dc.pen.isNull = false ∧
      (∀ r ∈ lines, d.effectOf r = .line) ∧
      (∃ figures : List Figure,
        d.drawn s (opening :: (lines ++ [ending, stroking])) =
            s.penCalls ++ figures.map Call.polyline ∧
          figures.flatMap segmentsThrough = segmentsDrawn (d.drawn s lines)) ∧
      d.after s (opening :: (lines ++ [ending, stroking])) =
        { d.after s lines with path := none } := by
  intro d s opening lines ending stroking
  have hLines : ∀ r ∈ lines, d.effectOf r = .line := by decide
  refine ⟨rfl, rfl, hLines, ?_⟩
  exact (drawn_strokedPath (s := s) rfl rfl rfl rfl rfl hLines).2

end Emf

end Metafile
