import Metafile.Player
import Metafile.Proofs.Replay.Records

/-! What the steps of records do to a player. Each kind of step has a lemma that tells what it
leaves behind, and a record is compared with what a reading of it asks for: first everything is
read, and only then are the actions carried out, one behind the other. -/

namespace Metafile.Play

variable {ω α β : Type}

/-- Steps that do the same to every player are the same. -/
theorem ext {x y : Play ω α} (hRun : ∀ player, x.run player = y.run player) : x = y :=
  funext hRun

/-- A program whose value is changed runs as before and changes the player no further. -/
@[simp]
theorem run_map (f : α → β) (x : Play ω α) (player : Player ω) : (f <$> x).run player =
    match x.run player with
    | .ok value after => .ok (f value) after
    | .error fault after => .error fault after := by
  rw [map_eq_pure_bind, EStateM.run_bind]
  cases x.run player <;> rfl

@[simp]
theorem run_throw (fault : Fault) (player : Player ω) :
    (throw fault : Play ω α).run player = .error fault player := rfl

/-- A value that was read is taken over, and a fault ends the record where it is. -/
@[simp]
theorem run_ofExcept (read : Except Fault α) (player : Player ω) :
    (ofExcept read : Play ω α).run player =
      match read with
      | .ok value => .ok value player
      | .error fault => .error fault player := by
  cases read <;> rfl

/-- A fault of a reading is a fault of the program that reads. -/
theorem ofExcept_throw (fault : Fault) :
    (ofExcept (throw fault : Except Fault α) : Play ω α) = throw fault := rfl

theorem throw_bind (fault : Fault) (rest : α → Play ω β) :
    (throw fault >>= rest : Play ω β) = throw fault := rfl

/-- Bytes that are there are there when they are asked for again. -/
theorem need_twice (p : Bytes) (required : Nat) (rest : Play ω α) :
    (do need p required; need p required; rest) = (do need p required; rest) :=
  ext fun player => by
    cases hNeed : p.need required <;> simp [need, hNeed]

variable [Surface ω]

@[simp]
theorem run_call (c : Call) (player : Player ω) : (call c).run player =
    .ok () { player with canvas := Surface.receive player.canvas c } := rfl

/-- Calls that are made one by one are received all together. -/
@[simp]
theorem run_forM_call (values : List β) (f : β → Call) (player : Player ω) :
    (forM values fun value => call (f value)).run player =
      .ok () { player with canvas := Surface.receiveAll player.canvas (values.map f) } := by
  induction values generalizing player with
  | nil => rfl
  | cons value rest ih =>
      rw [List.forM_cons, EStateM.run_bind, run_call]
      exact ih _

end Metafile.Play

namespace Metafile

theorem Player.eta {ω : Type} (player : Player ω) :
    (⟨player.canvas, player.gdi, player.plus, player.handleLimit⟩ : Player ω) = player := rfl

/-- The session that records of one language change, as a part of a player. It is replaced along
with the surface, and all the rest of the player stays as it is. -/
structure Seat (ω σ : Type) where
  session : Player ω → σ
  leave : Player ω → σ → ω → Player ω
  session_leave : ∀ player s canvas, session (leave player s canvas) = s
  canvas_leave : ∀ player s canvas, (leave player s canvas).canvas = canvas
  handleLimit_leave : ∀ player s canvas,
    (leave player s canvas).handleLimit = player.handleLimit
  leave_leave : ∀ player s canvas s' canvas',
    leave (leave player s canvas) s' canvas' = leave player s' canvas'
  leave_same : ∀ player, leave player (session player) player.canvas = player

namespace Seat

variable {ω σ α : Type} [Surface ω]

attribute [simp] session_leave canvas_leave handleLimit_leave leave_leave leave_same

/-- Carries an action out: the surface receives what it draws in the session before it, and the
session becomes the one behind it. -/
def act (seat : Seat ω σ) (m : Plotter σ α) (action : α) : Play ω Unit :=
  modify fun player => seat.leave player (m.step (seat.session player) action)
    (Surface.receiveAll player.canvas (m.draw (seat.session player) action))

variable {seat : Seat ω σ} {m : Plotter σ α}

/-- An action takes one step in the session that is seated and sends its calls to the canvas. It
cannot fail, so that faults only come from reading. -/
theorem run_act (action : α) (player : Player ω) : (seat.act m action).run player =
    .ok () (seat.leave player (m.step (seat.session player) action)
      (Surface.receiveAll player.canvas (m.draw (seat.session player) action))) := rfl

/-- Actions one behind the other draw what the plotter draws, and leave the session that it
leaves. -/
theorem run_forM_act (actions : List α) (player : Player ω) :
    (forM actions (seat.act m)).run player =
      .ok () (seat.leave player (m.run (seat.session player) actions)
        (Surface.receiveAll player.canvas (m.calls (seat.session player) actions))) := by
  induction actions generalizing player with
  | nil => exact congrArg (EStateM.Result.ok ()) (seat.leave_same player).symm
  | cons action rest ih =>
      rw [List.forM_cons, EStateM.run_bind, run_act]
      simp [ih, Plotter.calls, Plotter.run]

end Seat

namespace Play

variable {ω α β : Type}

/-- Carries out what was read, one action behind the other, if it could be read. -/
def obey (act : α → Play ω Unit) (read : Except Fault (List α)) : Play ω Unit := do
  forM (← ofExcept read) act

/-- Carries out what a record asks for, and ends as the reading of it says. -/
def follow (act : α → Play ω Unit) (reading : Reading α) : Play ω Bool := do
  forM reading.actions act
  match reading.outcome with
  | .done => return true
  | .unhandled => return false
  | .failed fault => throw fault

variable {act : α → Play ω Unit}

/-- What is not read is not obeyed, and the fault is passed on. -/
theorem obey_error (fault : Fault) : obey act (.error fault) = throw fault := rfl

@[simp]
theorem obey_pure (actions : List α) : obey act (pure actions) = forM actions act := rfl

@[simp]
theorem obey_ok (actions : List α) : obey act (.ok actions) = forM actions act := rfl

/-- Only one thing is read first, and then the rest is read and carried out. -/
@[simp]
theorem obey_bind (read : Except Fault β) (rest : β → Except Fault (List α)) :
    obey act (read >>= rest) = (ofExcept read >>= fun value => obey act (rest value)) := by
  cases read <;> rfl

@[simp]
theorem forM_singleton (action : α) : forM [action] act = act action :=
  ext fun player => by
    rw [List.forM_cons, EStateM.run_bind]
    cases (act action).run player <;> rfl

/-- A record that is read as a whole fails before anything is done, or all of it is done. -/
theorem follow_ofExcept (read : Except Fault (List α)) :
    follow act (.ofExcept read) = (do obey act read; return true) := by
  cases read <;> rfl

/-- A payload that is too short keeps a record from doing anything. -/
theorem follow_needing (p : Bytes) (required : Nat) (rest : Reading α) :
    follow act (.needing p required rest) = (do need p required; follow act rest) := by
  unfold need Reading.needing
  cases p.need required <;> rfl

/-- Actions that are asked for before the rest is read are obeyed before it is read. -/
theorem follow_after (first : List α) (rest : Reading α) :
    follow act (.after first rest) = (do forM first act; follow act rest) := by
  simp only [follow, Reading.after, List.forM_append, bind_assoc]

end Play

end Metafile
