import Metafile.Proofs.Gdi.Drawing
import Metafile.Proofs.Gdi.Frame
import Metafile.Proofs.Surface.Nesting

/-! Saved contexts of a session and saved states of its surface. Only actions about the
context save and restore states, and there are always as many of one as of the other. -/

namespace Metafile.Gdi.Session

variable (s : Session)

/-- A level that names a context leaves fewer contexts than there are, so that at least one is
brought back. -/
theorem depthAfterRestore?_lt {total depth : Nat} {level : Int}
    (hDepth : depthAfterRestore? total level = some depth) : depth < total := by
  unfold depthAfterRestore? at hDepth
  generalize (if level < 0 then (total : Int) + level else level - 1) = target at hDepth
  dsimp only at hDepth
  split at hDepth
  case isTrue => cases hDepth
  case isFalse hNamed =>
    obtain rfl := Option.some.inj hDepth
    omega

/-- A level names no saved context if it is zero, reaches below the first one or is greater than
the depth. -/
theorem depthAfterRestore?_eq_none {total : Nat} {level : Int}
    (hLevel : level = 0 ∨ total + level < 0 ∨ total < level) :
    depthAfterRestore? total level = none := by
  unfold depthAfterRestore?
  rw [if_pos]
  split <;> omega

/-- So many contexts are left as the level tells. The number of states that the surface restores
is counted in the same way. -/
theorem length_saved_restore {level : Int} {depth : Nat}
    (hDepth : depthAfterRestore? s.saved.length level = some depth) :
    (s.restore level).saved.length = depth := by
  have hLess := depthAfterRestore?_lt hDepth
  have hDrop : (s.saved.drop (s.saved.length - depth - 1)).length = depth + 1 := by
    rw [List.length_drop]
    omega
  unfold restore
  rw [hDepth]
  dsimp only
  cases hRest : s.saved.drop (s.saved.length - depth - 1) with
  | nil =>
      rw [hRest] at hDrop
      cases hDrop
  | cons context older =>
      rw [hRest] at hDrop
      exact Nat.succ.inj hDrop

/-- Setting a font neither saves nor restores a state. -/
theorem flat_fontCalls : s.fontCalls.all Call.isFlat := by
  unfold fontCalls
  split <;> rfl

theorem flat_of_plain {calls : List Call} (hPlain : calls.all Call.isPlain) :
    calls.all Call.isFlat := by
  rw [List.all_eq_true] at hPlain ⊢
  intro call hMem
  have hCall := hPlain call hMem
  cases call <;> first | rfl | cases hCall

/-- Only actions about the context save or restore states of the surface. -/
theorem flat_draw {action : Action} (hEffect : action.effect ≠ .context) :
    (s.draw action).all Call.isFlat := by
  cases action with
  | saveContext | restoreContext _ => exact absurd rfl hEffect
  | text text reference =>
      unfold draw
      dsimp only
      split
      · rfl
      · rw [List.all_append, s.flat_fontCalls]
        rfl
  | _ => exact flat_of_plain (s.plain_draw rfl)

/-- An action saves and restores as many states on the surface as contexts in the
session. -/
theorem nests_draw (action : Action) :
    Nests s.saved.length (s.draw action) (s.step action).saved.length := by
  by_cases hEffect : action.effect = .context
  · cases action with
    | saveContext => exact .saveState _
    | restoreContext level =>
        unfold draw step
        dsimp only
        cases hDepth : depthAfterRestore? s.saved.length level with
        | none =>
            have hSame : s.restore level = s := by simp [restore, hDepth]
            rw [hSame]
            exact .of_flat rfl
        | some depth =>
            have hLess := depthAfterRestore?_lt hDepth
            have hNests := Nests.restoreStates (Nat.sub_le s.saved.length depth)
            rw [Nat.sub_sub_self (Nat.le_of_lt hLess)] at hNests
            rwa [s.length_saved_restore hDepth]
    | _ => cases hEffect
  · rw [saved_step hEffect]
    exact .of_flat (s.flat_draw hEffect)

end Metafile.Gdi.Session
