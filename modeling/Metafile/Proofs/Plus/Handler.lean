import Metafile.Plus.Handler
import Metafile.Proofs.Player

/-! What the handler of EMF+ records comes to. It does what the reading of a record asks for, and
if the pen is taken up before the shape is read, the reading has it so as well. -/

namespace Metafile.Plus

open Metafile.Play

variable {ω : Type}

namespace Play

@[simp]
theorem run_session (player : Player ω) : session.run player = .ok player.plus player := rfl

@[simp]
theorem run_change (f : Session → Session) (player : Player ω) :
    (change f).run player = .ok () { player with plus := f player.plus } := rfl

/-- The colour of a brush is looked up in the table, or given in the record itself. -/
@[simp]
theorem run_brushColor (brush : BrushRef) (player : Player ω) :
    (brushColor brush).run player = .ok (player.plus.brushColor brush) player := rfl

@[simp]
theorem run_placeBox (box : Box) (player : Player ω) :
    (placeBox box).run player = .ok (player.plus.placeBox box) player := rfl

variable [Surface ω]

/-- The session of EMF+ records. -/
def seat : Seat ω Session where
  session := Player.plus
  leave player s canvas := { player with canvas, plus := s }
  session_leave _ _ _ := rfl
  canvas_leave _ _ _ := rfl
  handleLimit_leave _ _ _ := rfl
  leave_leave _ _ _ _ _ := rfl
  leave_same := Player.eta

def act : Action → Play ω Unit := seat.act Session.plotter

/-- An action takes one step in the session of EMF+ and sends its calls to the canvas. The other
session is not touched. -/
@[simp]
theorem run_act (action : Action) (player : Player ω) : (act action).run player = .ok ()
    { player with
      canvas := Surface.receiveAll player.canvas (player.plus.draw action)
      plus := player.plus.step action } := rfl

theorem define_eq (handle : Nat) (object : Gdi.Object) :
    (define handle object : Play ω Unit) = act (.define handle object) := rfl

/-- Taking up a pen sets its style, or the default one if the slot has no pen. -/
theorem applyPen_eq (handle : Nat) :
    (applyPen handle : Play ω Unit) = act (.strokeWith handle) := by
  refine ext fun player => ?_
  have hThin : visibleWidth 1 = 1 := ite_self _
  rw [applyPen, EStateM.run_bind, run_session, run_act, Session.draw, Session.penCalls]
  dsimp only
  cases player.plus.objects.select? handle with
  | none => simp [hThin, Session.step]
  | some object => cases object <;> simp [hThin, Session.step]

/-- Each box is placed and drawn before the next one is placed. -/
@[simp]
theorem run_forM_placeBox (f : Box → Call) (boxes : List Box) (player : Player ω) :
    (forM boxes fun box => do call (f (← placeBox box))).run player = .ok ()
      { player with
        canvas := Surface.receiveAll player.canvas
          (boxes.map fun box => f (player.plus.placeBox box)) } := by
  induction boxes generalizing player with
  | nil => rfl
  | cons box rest ih =>
      rw [List.forM_cons, EStateM.run_bind, EStateM.run_bind, run_placeBox]
      exact ih _

/-- An ellipse is placed at its four corners and drawn as a closed line. -/
theorem ellipse_eq (box : Box) : (ellipse box : Play ω Unit) = act (.ellipse box) := by
  refine ext fun player => ?_
  simp [ellipse, Session.draw, Session.corners, Session.step]

theorem save_eq (index : Nat) : (save index : Play ω Unit) = act (.save index) := rfl

theorem setTransform_eq (transform : Affine Float) :
    (setTransform transform : Play ω Unit) = act (.setTransform transform) := rfl

theorem multiply_eq (matrix : Affine Float) (append : Bool) :
    (multiply matrix append : Play ω Unit) = act (.multiply matrix append) := rfl

/-- Transforms that are brought back one by one leave the last of them in force. -/
theorem run_restoreTimes {newer older : List SavedTransform} {entry : SavedTransform}
    {player : Player ω} (hSaved : player.plus.saved = newer ++ entry :: older) :
    (restoreTimes (newer.length + 1)).run player = .ok ()
      { player with
        canvas := Surface.receiveAll player.canvas
          (List.replicate (newer.length + 1) .restoreState)
        plus := { player.plus with transform := entry.transform, saved := older } } := by
  induction newer generalizing player with
  | nil => simp [restoreTimes, restoreNewest, hSaved]
  | cons first newer ih =>
      rw [List.length_cons, restoreTimes, restoreNewest]
      simp [hSaved, ih, List.replicate_succ]

end Play

/-- An index that was saved under splits the saved transforms at the newest of its entries. -/
theorem Session.savedFrom_cases (s : Session) (index : Nat) :
    (s.saved.findIdx? (fun entry => entry.index == index) = none ∧ s.savedFrom index = []) ∨
      ∃ newer entry older, s.saved = newer ++ entry :: older ∧
        s.saved.findIdx? (fun entry => entry.index == index) = some newer.length ∧
        s.savedFrom index = entry :: older := by
  obtain ⟨objects, transform, saved⟩ := s
  unfold savedFrom
  dsimp only
  induction saved with
  | nil => exact .inl ⟨rfl, rfl⟩
  | cons first rest ih =>
      by_cases hFirst : first.index = index
      · exact .inr ⟨[], first, rest, rfl, by simp [List.findIdx?_cons, hFirst],
          by simp [hFirst]⟩
      · rcases ih with ⟨hNone, hEmpty⟩ | ⟨newer, entry, older, rfl, hFound, hFrom⟩
        · exact .inl ⟨by simp [List.findIdx?_cons, hFirst, hNone], by simp [hFirst, hEmpty]⟩
        · exact .inr ⟨first :: newer, entry, older, rfl,
            by simp [List.findIdx?_cons, hFirst, hFound], by simp [hFirst, hFrom]⟩

variable [Surface ω]

/-- Restoring makes as many calls as there are transforms above the one that is found, itself
included. The two programs look for it in the same session, so that it suffices to compare them
with and without one. -/
theorem Play.restore_eq (index : Nat) :
    (restore index : Play ω Unit) = act (.restore index) := by
  refine ext fun player => ?_
  rw [restore, EStateM.run_bind, run_session, run_act, Session.draw, Session.step]
  rcases player.plus.savedFrom_cases index with ⟨hNone, hEmpty⟩ |
    ⟨newer, entry, older, hSaved, hFound, hFrom⟩
  · simp [hNone, hEmpty]
  · have hCount : player.plus.saved.length - older.length = newer.length + 1 := by
      rw [hSaved, List.length_append, List.length_cons]
      omega
    simp only [hFound, hFrom, hCount]
    exact run_restoreTimes hSaved

namespace Play

theorem clear_eq (color : Color) :
    (call (.fillBackground color) : Play ω Unit) = act (.clear color) := rfl

/-- Boxes are outlined one by one, and none of them changes the session in which the next one is
placed. -/
theorem strokeBoxes_eq (boxes : List Box) :
    (forM boxes fun box => do call (.strokeRect (← placeBox box)) : Play ω Unit) =
      act (.strokeBoxes boxes) :=
  ext fun player => by simp [Session.draw, Session.step]

/-- A line that is closed on the surface is closed in its own coordinates. -/
theorem polyline_eq (closed : Bool) (points : List (Point Float)) :
    (do
      let places := points.map (← session).place
      call (.polyline (if closed then places ++ places.head?.toList else places)) : Play ω Unit) =
      act (.polyline (if closed then points ++ points.head?.toList else points)) :=
  ext fun player => by cases closed <;> simp [Session.draw, Session.step, Option.toList_map]

end Play

open Plus.Play in
/-- A record of a known kind does what the reading of it asks for. -/
theorem carryOut_eq (kind : Kind) (f : Flags) (p : Bytes) :
    (do carryOut kind f p; return true : Play ω Bool) = follow act (actions kind f p) := by
  cases kind with
  | fillRects =>
      simp only [carryOut, actions, need, follow_ofExcept, obey_bind, obey_pure, bind_assoc]
      refine ext fun player => ?_
      cases p.need 8 <;> cases counted (boxLayout f.compressed) p 4 <;>
        simp [Session.draw, Session.step]
  | drawRects =>
      simp only [carryOut, actions, follow_needing, follow_after, follow_ofExcept, bind_assoc,
        applyPen_eq, obey_bind, obey_pure, forM_singleton, List.forM_eq_forM, strokeBoxes_eq]
  | fillPolygon =>
      simp only [carryOut, actions, need, follow_ofExcept, obey_bind, obey_pure, bind_assoc]
      refine ext fun player => ?_
      cases p.need 8 <;> cases counted (pointLayout f.compressed) p 4 <;>
        simp [Session.draw, Session.step]
  | drawLines =>
      simp only [carryOut, actions, follow_needing, follow_after, follow_ofExcept, bind_assoc,
        applyPen_eq, obey_bind, obey_pure, forM_singleton, ← polyline_eq]
  | fillEllipse =>
      simp only [carryOut, actions, need, follow_ofExcept, obey_bind, obey_pure, bind_assoc,
        ellipse_eq]
      refine ext fun player => ?_
      cases p.need 4 <;> cases single (boxLayout f.compressed) p 4 <;>
        simp [Session.draw, Session.step]
  | drawEllipse =>
      simp only [carryOut, actions, follow_after, follow_ofExcept, bind_assoc, applyPen_eq,
        obey_bind, obey_pure, forM_singleton, ellipse_eq]
      refine ext fun player => ?_
      cases single (boxLayout f.compressed) p 0 <;> simp [Session.draw, Session.step]
  | drawString =>
      simp only [carryOut, actions, drawString, need, follow_ofExcept, obey_bind, bind_assoc]
      refine ext fun player => ?_
      by_cases hEnd : p.size < 28 + 2 * p.u32At 8
      · cases p.need 28 <;> simp [hEnd, ofExcept_throw, throw_bind]
      · cases p.need 28 <;> cases (Text.ofUtf16 (p.slice 28 (2 * p.u32At 8))).isEmpty <;>
          simp [hEnd, Session.draw, Session.step]
  | _ =>
      simp only [carryOut, actions, need, follow_ofExcept, obey_bind, obey_pure, obey_ok,
        forM_singleton, define_eq, clear_eq, save_eq, restore_eq, setTransform_eq, multiply_eq,
        List.forM_nil, bind_assoc, pure_bind]

/-- Handling a record is doing what the reading of it asks for, and ending as it says. -/
theorem handle_eq (r : Record) : (handle r : Play ω Bool) = follow Play.act (reading r) := by
  unfold handle reading
  cases Kind.ofCode? (r.opcode % 0x10000) with
  | none => rfl
  | some kind => exact carryOut_eq kind ⟨r.flags⟩ r.payload

end Metafile.Plus
