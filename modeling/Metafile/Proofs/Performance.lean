import Metafile.Performance
import Metafile.Proofs.Emf.Handler
import Metafile.Proofs.Plus.Handler
import Metafile.Proofs.Replay.Summary
import Metafile.Proofs.Wmf.Handler

/-! What a performance comes to. Record by record a player does what the readings of the records
ask for, so that the surface receives the calls of the replay, one behind the other. -/

namespace Metafile

namespace Play

variable {ω : Type} {x y : Play ω Bool} {player : Player ω}

theorem outcome_eq_of_run (hRun : x.run player = y.run player) :
    x.outcome player = y.outcome player := by
  rw [outcome, outcome, hRun]

theorem after_eq_of_run (hRun : x.run player = y.run player) :
    x.after player = y.after player := by
  rw [after, after, hRun]

variable {σ α : Type} [Surface ω] {seat : Seat ω σ} {m : Plotter σ α}

/-- A reading that is followed leaves what its actions leave, however it ends. -/
theorem run_follow (reading : Reading α) (player : Player ω) :
    (follow (seat.act m) reading).run player =
      let left := seat.leave player (m.run (seat.session player) reading.actions)
        (Surface.receiveAll player.canvas (m.calls (seat.session player) reading.actions))
      match reading.outcome with
      | .done => .ok true left
      | .unhandled => .ok false left
      | .failed fault => .error fault left := by
  rw [follow, EStateM.run_bind, Seat.run_forM_act]
  dsimp only
  cases reading.outcome <;> rfl

/-- A program that follows a reading ends as the reading says, whatever the player is. -/
@[simp]
theorem outcome_follow (reading : Reading α) (player : Player ω) :
    (follow (seat.act m) reading).outcome player = reading.outcome := by
  rw [outcome, run_follow]
  cases reading.outcome <;> rfl

/-- It leaves the session that the actions of the reading leave, and the canvas with the calls
that they make. If the reading fails, the actions in front of the fault have been obeyed all the
same. -/
@[simp]
theorem after_follow (reading : Reading α) (player : Player ω) :
    (follow (seat.act m) reading).after player =
      seat.leave player (m.run (seat.session player) reading.actions)
        (Surface.receiveAll player.canvas (m.calls (seat.session player) reading.actions)) := by
  rw [after, run_follow]
  cases reading.outcome <;> rfl

end Play

section

variable {ω : Type} [Surface ω] (r : Record) (player : Player ω)

/-- A handler of WMF ends as its record is read. The objects and contexts that it may look up on
the way have no influence. -/
theorem Wmf.outcome_handle : (handle r).outcome player = (reading r).outcome := by
  rw [handle_eq]
  exact Play.outcome_follow ..

/-- So does one of EMF. Of the player it asks for the limit of the handles and for nothing
else. -/
theorem Emf.outcome_handle :
    (handle r).outcome player = (reading player.handleLimit r).outcome := by
  rw [Play.outcome_eq_of_run (run_handle r player)]
  exact Play.outcome_follow ..

/-- And one of EMF+, also where it looks up a pen or a brush that is not there. -/
theorem Plus.outcome_handle : (handle r).outcome player = (reading r).outcome := by
  rw [handle_eq]
  exact Play.outcome_follow ..

end

namespace Performance

variable {ω : Type} {handle : Record → Play ω Bool}

/-- What is told of a record that failed. -/
def warning? (r : Record) : Outcome → Option Warning
  | .failed fault => some (.recordSkipped r.opcode r.offset fault)
  | _ => none

/-- One record more counts as what becomes of it, and leaves what its handler leaves. -/
theorem advance_eq (so : Performance ω) (r : Record) :
    so.advance handle r =
      { player := (handle r).after so.player
        summary := so.summary + .ofOutcomes [(handle r).outcome so.player]
        warnings := so.warnings ++ (warning? r ((handle r).outcome so.player)).toArray } := by
  unfold advance Play.after Play.outcome
  cases (handle r).run so.player with
  | ok known left => cases known <;> simp [warning?] <;> rfl
  | error fault left =>
      simp [warning?]
      rfl

variable {σ α : Type} [Surface ω] (seat : Seat ω σ) {m : Plotter σ α}
  {reading : Record → Reading α} {limit : Nat}

/-- Records are performed as they are read, as long as the player keeps the limit that they are
read with, and no record changes it. -/
theorem foldl_advance (hHandle : ∀ r player, player.handleLimit = limit →
      (handle r).run player = (Play.follow (seat.act m) (reading r)).run player)
    (rs : List Record) (so : Performance ω) (hLimit : so.player.handleLimit = limit) :
    rs.foldl (advance handle) so =
      { player := seat.leave so.player (m.after reading (seat.session so.player) rs)
          (Surface.receiveAll so.player.canvas (m.drawn reading (seat.session so.player) rs))
        summary := so.summary + .ofOutcomes (rs.map fun r => (reading r).outcome)
        warnings := so.warnings ++
          (rs.filterMap fun r => warning? r (reading r).outcome).toArray } := by
  induction rs generalizing so with
  | nil => simp [Plotter.after, Plotter.drawn, actionsOf, Plotter.run, Plotter.calls]
  | cons r rest ih =>
      have hRun := hHandle r so.player hLimit
      rw [List.foldl_cons, advance_eq, Play.outcome_eq_of_run hRun, Play.after_eq_of_run hRun,
        Play.outcome_follow, Play.after_follow, ih _ (by simp [hLimit])]
      have hOne : [(reading r).outcome] ++ rest.map (fun r => (reading r).outcome) =
          (r :: rest).map fun r => (reading r).outcome := rfl
      rw [Summary.add_assoc, ← Summary.ofOutcomes_append, hOne]
      cases hWarning : warning? r (reading r).outcome <;>
        simp [Plotter.after_cons, Plotter.drawn_cons, hWarning]

/-- What is left behind is what a replay lists: the surface has received its calls, the records
count as in it, and its warnings are given. -/
theorem performed_eq (hHandle : ∀ r player, player.handleLimit = limit →
      (handle r).run player = (Play.follow (seat.act m) (reading r)).run player)
    (setup : List Call) (rs : List Record) {player : Player ω} {canvas : ω}
    (hLimit : player.handleLimit = limit)
    (hCanvas : player.canvas = Surface.receiveAll canvas setup) :
    let done := rs.foldl (advance handle) (start player)
    let replay := Replay.ofRecords setup m (seat.session player) reading rs
    Performed.mk done.player.canvas done.summary done.warnings.toList =
      ⟨Surface.receiveAll canvas replay.calls, replay.summary, replay.warnings⟩ := by
  intro done replay
  have hDone : done = _ := foldl_advance seat hHandle rs (start player) hLimit
  have hWarnings : replay.warnings = rs.filterMap fun r => warning? r (reading r).outcome := by
    simp only [replay, Replay.ofRecords, List.filterMap_map]
    rfl
  rw [hDone, hWarnings]
  simp [replay, start, hCanvas, Replay.calls_ofRecords, Replay.summary_ofRecords]

end Performance

/-- A performance draws on any surface what the replay of the picture lists, counts its records as
the replay does and gives the same warnings. -/
theorem Picture.perform_eq {ω : Type} [Surface ω] (p : Picture) (canvas : ω) (o : Replay.Options) :
    p.perform canvas o =
      ⟨Surface.receiveAll canvas (p.replay o).calls, (p.replay o).summary,
        (p.replay o).warnings⟩ := by
  obtain ⟨format, header?, rs, error⟩ := p
  cases header? with
  | none => rfl
  | some header =>
      cases format with
      | unknown => rfl
      | placeableWmf | wmf =>
          exact Performance.performed_eq Gdi.Play.seat
            (fun r player _ => congrArg (EStateM.run · player) (Wmf.handle_eq r)) _ rs rfl rfl
      | emf =>
          refine Performance.performed_eq Gdi.Play.seat
            (fun r player hLimit => ?_) _ rs rfl rfl
          rw [Emf.run_handle, hLimit]
          rfl
      | emfPlus =>
          exact Performance.performed_eq Plus.Play.seat
            (fun r player _ => congrArg (EStateM.run · player) (Plus.handle_eq r)) _ rs rfl rfl

end Metafile
