import Metafile.Proofs.Gdi.Figures

/-! Paths that have been ended. They take up no more shapes until they are rendered or
replaced, but a figure can still be closed, as often as a record asks for it. -/

namespace Metafile

namespace Gdi

/-- The action closes the newest figure. -/
def Action.closesFigure : Action → Bool
  | .closeFigure => true
  | _ => false

/-- A figure led back to its first point some times. A figure without points stays so. -/
def Figure.closed (times : Nat) : Figure → Figure
  | [] => []
  | first :: rest => first :: rest ++ List.replicate times first

namespace Path

/-- The path with its newest figure closed some times. -/
def closed (times : Nat) (path : Path) : Path :=
  { path with figures := path.figures.modifyHead (Figure.closed times) }

variable (path : Path)

@[simp]
theorem closed_zero : path.closed 0 = path := by
  obtain ⟨figures, recording⟩ := path
  rcases figures with _ | ⟨_ | ⟨first, rest⟩, earlier⟩ <;> simp [closed, Figure.closed]

/-- Closing the newest figure once is the first of the closings that are counted here. -/
theorem closeFigure_eq : path.closeFigure = path.closed 1 := by
  obtain ⟨figures, recording⟩ := path
  rcases figures with _ | ⟨_ | ⟨first, rest⟩, earlier⟩ <;> rfl

/-- A closed figure still starts at its first point, so closings add up. -/
theorem closed_closed (times more : Nat) :
    (path.closed times).closed more = path.closed (times + more) := by
  obtain ⟨figures, recording⟩ := path
  rcases figures with _ | ⟨_ | ⟨first, rest⟩, earlier⟩
  · rfl
  · rfl
  · simp [closed, Figure.closed, ← List.replicate_append_replicate]

/-- Closings change a path whose newest figure has a point. -/
theorem closed_eq_self_iff (times : Nat) :
    path.closed times = path ↔ times = 0 ∨ ∀ newest ∈ path.figures.head?, newest = [] := by
  obtain ⟨figures, recording⟩ := path
  rcases figures with _ | ⟨_ | ⟨first, rest⟩, earlier⟩ <;> simp [closed, Figure.closed]

end Path

namespace Session

variable {s : Session} {path : Path} {action : Action}

/-- Only closings of a figure change a path that has been ended. -/
theorem path_step_ended (hPath : s.path = some path) (hEnded : path.recording = false)
    (hKeeps : action.replacesPath = false) :
    (s.step action).path = some (path.closed (if action.closesFigure then 1 else 0)) := by
  have hNotRecording : s.isRecording = false := by simp [isRecording, hPath, hEnded]
  -- Shapes ask whether the path is recording, the closing of a figure does not.
  by_cases hEffect : action.effect = .path
  · cases action with
    | endPath =>
        obtain ⟨figures, recording⟩ := path
        obtain rfl : recording = false := hEnded
        simp [step, hPath, Action.closesFigure]
    | closeFigure =>
        show s.path.map Path.closeFigure = _
        rw [hPath, Option.map_some, Path.closeFigure_eq]
        rfl
    | beginPath | discardPath | fillPath | strokePath | strokeAndFillPath => cases hKeeps
    | _ => cases hEffect
  · have hOpen : action.closesFigure = false := by
      cases action <;> first | rfl | exact absurd rfl hEffect
    rw [path_step hNotRecording hEffect, hPath, hOpen]
    simp

/-- An ended path goes through a run with nothing but its newest figure closed. -/
theorem path_run_ended (hPath : s.path = some path) (hEnded : path.recording = false)
    {actions : List Action} (hKeeps : ∀ action ∈ actions, action.replacesPath = false) :
    (plotter.run s actions).path = some (path.closed (actions.countP Action.closesFigure)) := by
  induction actions generalizing s path with
  | nil =>
      rw [List.countP_nil, Path.closed_zero]
      exact hPath
  | cons action rest ih =>
      obtain ⟨hAction, hRest⟩ := List.forall_mem_cons.1 hKeeps
      show (plotter.run (s.step action) rest).path = _
      rw [ih (path_step_ended hPath hEnded hAction) hEnded hRest, Path.closed_closed,
        List.countP_cons, Nat.add_comm]

end Session

end Gdi

open Gdi

namespace Emf

variable {limit : Nat}

/-- How many of the records close a figure. -/
def closings (rs : List Record) : Nat :=
  rs.countP fun r => Kind.ofCode? r.opcode == some .closeFigure

/-- Of all records only those of one kind close a figure, and each of them does it once. No
payload can keep it from this. -/
theorem countP_closesFigure_reading (r : Record) :
    ((dialect limit).reading r).actions.countP Action.closesFigure =
      if Kind.ofCode? r.opcode == some .closeFigure then 1 else 0 := by
  cases hKind : Kind.ofCode? r.opcode with
  | none =>
      rw [reading_dialect, reading, hKind]
      rfl
  | some kind =>
      by_cases hClose : kind = .closeFigure
      · subst hClose
        rw [actions_of_kind hKind fun _ => rfl]
        rfl
      · have hOpen : ((dialect limit).reading r).actions.countP Action.closesFigure = 0 := by
          rw [reading_dialect, reading, hKind, List.countP_eq_zero]
          intro action hMem hCloses
          have hAsked := (asks_path limit kind r.payload).of_mem hMem
          cases action with
          | closeFigure => exact hClose (hAsked.2.2 rfl)
          | _ => cases hCloses
        simp [hOpen, hClose]

/-- So the closings of a list of records are counted by the kinds of the records. -/
theorem countP_closesFigure (rs : List Record) :
    (actionsOf (dialect limit).reading rs).countP Action.closesFigure = closings rs := by
  unfold closings actionsOf
  induction rs with
  | nil => rfl
  | cons r rest ih =>
      rw [List.flatMap_cons, List.countP_append, ih, countP_closesFigure_reading, List.countP_cons,
        Nat.add_comm]

/-- A record that asks for one action whatever its payload is draws what this action draws. -/
theorem drawn_of_kind {r : Record} {kind : Kind} (hKind : Kind.ofCode? r.opcode = some kind)
    {action : Action} (hActions : ∀ p, actions limit kind p = .ok [action]) (s : Session) :
    (dialect limit).drawn s [r] = s.draw action := by
  unfold Dialect.drawn
  rw [Plotter.drawn_cons, actions_of_kind hKind hActions]
  show (s.draw action ++ []) ++ [] = _
  rw [List.append_nil, List.append_nil]

/-- A path that has been ended takes up nothing more until a record replaces or renders it.
Only its newest figure is closed, once for each record that asks for that, so the path stays
what it was exactly if there is no such record or no point to lead back to. A record that
renders the path draws the figures with those closings. -/
theorem drawn_endedPath {s : Session} {path : Gdi.Path} (hPath : s.path = some path)
    {ending : Record} (hEnding : Kind.ofCode? ending.opcode = some .endPath)
    {behind : List Record}
    (hBehind : ∀ r ∈ behind, ∀ kind ∈ Kind.ofCode? r.opcode, kind.replacesPath = false) :
    let d := dialect limit
    let ended : Gdi.Path := { path with recording := false }
    let left := ended.closed (closings behind)
    let s' := d.after s (ending :: behind)
    (d.after s [ending]).path = some ended ∧ s'.path = some left ∧
      (left = ended ↔
        closings behind = 0 ∨ ∀ newest ∈ path.figures.head?, newest = []) ∧
      ∀ rendering kind, Kind.ofCode? rendering.opcode = some kind →
        (kind = .fillPath → d.drawn s' [rendering] =
          s'.brushCalls ++ .setStrokeColor .transparent :: (left.rendered 3).map Call.polygon) ∧
        (kind = .strokePath → d.drawn s' [rendering] =
          s'.stroked ((left.rendered 2).map Call.polyline)) ∧
        (kind = .strokeAndFillPath → d.drawn s' [rendering] =
          s'.brushCalls ++ s'.penCalls ++ (left.rendered 2).map Call.polygon) := by
  intro d ended left s'
  have hEnded : (d.after s [ending]).path = some ended := by
    rw [d.after_cons, actions_of_kind hEnding fun _ => rfl]
    show s.path.map _ = _
    rw [hPath]
    rfl
  have hActions : ∀ action ∈ actionsOf d.reading behind, action.replacesPath = false := by
    refine Dialect.of_mem_actionsOf ?_ hBehind
    intro kind p hKeeps asked hRead action hMem
    exact (asks_path limit kind p asked hRead action hMem).1.trans hKeeps
  have hLeft : s'.path = some left := by
    show (d.after s ([ending] ++ behind)).path = _
    rw [d.after_append]
    have hRun := Session.path_run_ended hEnded rfl hActions
    rw [countP_closesFigure] at hRun
    exact hRun
  refine ⟨hEnded, hLeft, ended.closed_eq_self_iff _, ?_⟩
  intro rendering kind hKind
  refine ⟨?_, ?_, ?_⟩ <;>
  · rintro rfl
    rw [drawn_of_kind hKind fun _ => rfl]
    simp only [Session.draw, hLeft]

/-- Behind the end of a path, a line and a rectangle are drawn at once. The path is stroked
as it was. -/
theorem drawn_endedPath_shapesBehind :
    let d := dialect 1
    let s := d.after (.initial .initial) [⟨0x3B, 8, 0, 108, #[]⟩,
      ⟨0x1B, 16, 0, 116, #[1, 0, 0, 0, 2, 0, 0, 0]⟩,
      ⟨0x36, 16, 0, 132, #[11, 0, 0, 0, 2, 0, 0, 0]⟩]
    let ending : Record := ⟨0x3C, 8, 0, 148, #[]⟩
    let behind : List Record := [⟨0x36, 16, 0, 156, #[50, 0, 0, 0, 60, 0, 0, 0]⟩,
      ⟨0x2B, 24, 0, 172, #[10, 0, 0, 0, 10, 0, 0, 0, 20, 0, 0, 0, 20, 0, 0, 0]⟩]
    let stroking : Record := ⟨0x40, 8, 0, 196, #[]⟩
    let figure : Figure := [⟨1, 2⟩, ⟨11, 2⟩]
    let s' := d.after s (ending :: behind)
    s.path = some ⟨[figure], true⟩ ∧ s'.path = some ⟨[figure], false⟩ ∧
      d.drawn s' [stroking] = s'.stroked [.polyline figure] := by
  intro d s ending behind stroking figure s'
  have hPath : s.path = some ⟨[figure], true⟩ := by decide +kernel
  have hBehind : ∀ r ∈ behind, ∀ kind ∈ Kind.ofCode? r.opcode, kind.replacesPath = false := by
    decide
  obtain ⟨-, hLeft, hSame, hRenders⟩ :=
    @drawn_endedPath 1 s ⟨[figure], true⟩ hPath ending rfl behind hBehind
  have hStrokes := (hRenders stroking .strokePath rfl).2.1 rfl
  rw [hSame.2 (.inl rfl)] at hLeft hStrokes
  exact ⟨hPath, hLeft, hStrokes⟩

/-- A figure that is closed behind the end of its path is stroked with another line, back to
its first point. -/
theorem drawn_closedBehindEnd :
    let d := dialect 1
    let s := d.after (.initial .initial) [⟨0x3B, 8, 0, 108, #[]⟩,
      ⟨0x1B, 16, 0, 116, #[0, 0, 0, 0, 0, 0, 0, 0]⟩,
      ⟨0x36, 16, 0, 132, #[10, 0, 0, 0, 0, 0, 0, 0]⟩,
      ⟨0x36, 16, 0, 148, #[10, 0, 0, 0, 10, 0, 0, 0]⟩, ⟨0x3C, 8, 0, 164, #[]⟩]
    let closing : Record := ⟨0x3D, 8, 0, 172, #[]⟩
    let stroking : Record := ⟨0x40, 8, 0, 180, #[]⟩
    let figure : Figure := [⟨0, 0⟩, ⟨10, 0⟩, ⟨10, 10⟩]
    s.path = some ⟨[figure], false⟩ ∧
      (d.after s [closing]).path = some ⟨[figure ++ [⟨0, 0⟩]], false⟩ ∧
      d.drawn s [closing, stroking] = s.penCalls ++ [.polyline (figure ++ [⟨0, 0⟩])] := by
  decide +kernel

end Emf

end Metafile
