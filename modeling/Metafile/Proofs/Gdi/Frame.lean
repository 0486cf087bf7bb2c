import Metafile.Proofs.Gdi.Effect

/-! What an action leaves as it is. Each part of a session is changed by the actions of
few effects only. -/

namespace Metafile.Gdi.Session

variable (s : Session)

/-- Only a path that is recording takes up shapes, so that without one the session stays as it
is. -/
theorem record_eq_self {s : Session} (f : Path → Path) (hRecording : s.isRecording = false) :
    s.record f = s := by
  obtain ⟨map, dc, objects, path, saved⟩ := s
  cases path with
  | none => rfl
  | some path =>
      have hStill : path.recording = false := hRecording
      simp [record, hStill]

section

variable (points : List (Point Float))

/-- Lines from the current position change neither the objects nor the saved contexts. -/
theorem objects_continueTo : (s.continueTo points).objects = s.objects := by
  unfold continueTo
  split <;> rfl

theorem saved_continueTo : (s.continueTo points).saved = s.saved := by
  unfold continueTo
  split <;> rfl

/-- Without a recording path lines from the current position do not change the path. -/
theorem path_continueTo {s : Session} (hRecording : s.isRecording = false) :
    (s.continueTo points).path = s.path := by
  unfold continueTo
  split
  · rfl
  · rw [record_eq_self _ hRecording]
    rfl

end

/-- A level that names a saved context brings it back and drops it with all newer ones;
other levels change nothing. -/
theorem restore_cases (level : Int) :
    s.restore level = s ∨ ∃ newer context older, s.saved = newer ++ context :: older ∧
      s.restore level = { s with dc := context.dc, map := context.map, saved := older } := by
  cases hDepth : depthAfterRestore? s.saved.length level with
  | none =>
      left
      simp [restore, hDepth]
  | some depth =>
      cases hDrop : s.saved.drop (s.saved.length - depth - 1) with
      | nil =>
          left
          simp [restore, hDepth, hDrop]
      | cons context older =>
          right
          refine ⟨s.saved.take (s.saved.length - depth - 1), context, older, ?_, ?_⟩
          · rw [← hDrop, List.take_append_drop]
          · simp [restore, hDepth, hDrop]

/-- The context that a level names is the one above as many as are to be left. -/
theorem restore_eq {s : Session} {level : Int} {newer older : List SavedContext}
    {context : SavedContext} (hSaved : s.saved = newer ++ context :: older)
    (hLevel : depthAfterRestore? s.saved.length level = some older.length) :
    s.restore level = { s with dc := context.dc, map := context.map, saved := older } := by
  have hLength : s.saved.length = newer.length + older.length + 1 := by
    rw [hSaved, List.length_append, List.length_cons]
    omega
  have hDrop : s.saved.drop (s.saved.length - older.length - 1) = context :: older := by
    rw [hLength, hSaved, show newer.length + older.length + 1 - older.length - 1 = newer.length by
      omega, List.drop_left]
  simp [restore, hLevel, hDrop]

/-- A level that counts from the oldest context or back from the newest one names the
context above `depth` others. -/
theorem depthAfterRestore?_eq {total depth : Nat} {level : Int} (hDepth : depth < total)
    (hLevel : level = depth + 1 ∨ ∃ k : Nat, level = -k ∧ depth + k = total) :
    depthAfterRestore? total level = some depth := by
  unfold depthAfterRestore?
  rcases hLevel with rfl | ⟨k, rfl, hTotal⟩
  · have hPositive : ¬((depth : Int) + 1 < 0) := by omega
    simp only [hPositive, if_false]
    rw [if_neg (by omega)]
    congr 1
    omega
  · have hNegative : -(k : Int) < 0 := by omega
    simp only [hNegative, if_true]
    rw [if_neg (by omega)]
    congr 1
    omega

variable {s} {action : Action}

/-- Objects are created, stored and deleted by the actions about objects alone. -/
theorem objects_step (hEffect : action.effect ≠ .objects) :
    (s.step action).objects = s.objects := by
  cases action with
  | create _ | put _ _ | delete _ => exact absurd rfl hEffect
  | lineTo _ | polylineTo _ | bezierTo _ => exact objects_continueTo ..
  | polyline points | polygon points => cases points <;> rfl
  | restoreContext level =>
      rcases s.restore_cases level with hSame | ⟨newer, context, older, -, hRestored⟩
      · rw [step, hSame]
      · rw [step, hRestored]
  | _ => rfl

/-- Contexts are put aside and brought back by the actions about the context alone. -/
theorem saved_step (hEffect : action.effect ≠ .context) : (s.step action).saved = s.saved := by
  cases action with
  | saveContext | restoreContext _ => exact absurd rfl hEffect
  | lineTo _ | polylineTo _ | bezierTo _ => exact saved_continueTo ..
  | polyline points | polygon points => cases points <;> rfl
  | _ => rfl

/-- Over any number of actions that are not about objects the table stays the same. -/
theorem objects_run {actions : List Action}
    (hActions : ∀ action ∈ actions, action.effect ≠ .objects) :
    (plotter.run s actions).objects = s.objects :=
  plotter.run_preserves (fun t => t.objects = s.objects)
    (fun _ _ hBefore hAction => (objects_step hAction).trans hBefore) hActions rfl

/-- While no path is recording, shapes do not change it. -/
theorem path_step (hRecording : s.isRecording = false) (hEffect : action.effect ≠ .path) :
    (s.step action).path = s.path := by
  cases action with
  | beginPath | endPath | closeFigure | discardPath | fillPath | strokePath | strokeAndFillPath =>
      exact absurd rfl hEffect
  | lineTo _ | polylineTo _ | bezierTo _ => exact path_continueTo _ hRecording
  | moveTo _ | rectangle _ _ | ellipse _ _ =>
      show (s.record _).path = s.path
      rw [record_eq_self _ hRecording]
  | polyline points | polygon points =>
      cases points with
      | nil => rfl
      | cons first rest =>
          show (s.record _).path = s.path
          rw [record_eq_self _ hRecording]
  | restoreContext level =>
      rcases s.restore_cases level with hSame | ⟨newer, context, older, -, hRestored⟩
      · rw [step, hSame]
      · rw [step, hRestored]
  | _ => rfl

/-- A step never drops one of the oldest contexts without going below their number. -/
theorem suffix_saved_step {kept : List SavedContext} (hKept : kept <:+ s.saved)
    (hDepth : kept.length ≤ (s.step action).saved.length) : kept <:+ (s.step action).saved := by
  by_cases hEffect : action.effect = .context
  · cases action with
    | saveContext => exact hKept.trans (List.suffix_cons ..)
    | restoreContext level =>
        rcases s.restore_cases level with hSame | ⟨newer, context, older, hSaved, hRestored⟩
        · rwa [step, hSame]
        · rw [step, hRestored] at hDepth ⊢
          have hOlder : older <:+ s.saved := by
            rw [hSaved]
            exact (List.suffix_cons ..).trans (List.suffix_append ..)
          exact List.suffix_of_suffix_length_le hKept hOlder hDepth
    | _ => cases hEffect
  · rwa [saved_step hEffect]

end Metafile.Gdi.Session
