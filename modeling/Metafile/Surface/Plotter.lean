import Metafile.Surface.Call

/-! Machines that draw. What an action draws and what it leaves behind both depend
on the state before it. -/

namespace Metafile

structure Plotter (σ α : Type) where
  step : σ → α → σ
  draw : σ → α → List Call

namespace Plotter

variable {σ α : Type} (m : Plotter σ α)

/-- The state behind a sequence of actions. -/
def run (s : σ) (actions : List α) : σ := actions.foldl m.step s

/-- What a sequence of actions draws. -/
def calls (s : σ) : List α → List Call
  | [] => []
  | action :: rest => m.draw s action ++ calls (m.step s action) rest

/-- Actions may be cut into two parts anywhere: the second is run in the state that the first one
leaves. -/
@[simp]
theorem run_append (s : σ) (first second : List α) :
    m.run s (first ++ second) = m.run (m.run s first) second := by
  simp [run]

/-- What a step keeps for every action that is allowed, a sequence of such actions keeps. -/
theorem run_preserves (Holds : σ → Prop) {Allowed : α → Prop}
    (hStep : ∀ s action, Holds s → Allowed action → Holds (m.step s action)) {actions : List α}
    (hActions : ∀ action ∈ actions, Allowed action) {s : σ} (hHolds : Holds s) :
    Holds (m.run s actions) := by
  induction actions generalizing s with
  | nil => exact hHolds
  | cons action rest ih =>
      obtain ⟨hAction, hRest⟩ := List.forall_mem_cons.1 hActions
      exact ih hRest (hStep s action hHolds hAction)

/-- Actions draw the same whether or not they are cut into two sequences. -/
theorem calls_append (s : σ) (first second : List α) :
    m.calls s (first ++ second) = m.calls s first ++ m.calls (m.run s first) second := by
  induction first generalizing s with
  | nil => rfl
  | cons action rest ih => simp [calls, run, ih]

end Plotter

end Metafile
