import Metafile.Surface.Plotter

/-! Saved and restored states of a surface. Calls are nested if they restore no state that
has not been saved, and a machine whose actions draw nested calls does so in every run. -/

namespace Metafile

namespace Call

def isSave : Call → Bool
  | saveState => true
  | _ => false

def isRestore : Call → Bool
  | restoreState => true
  | _ => false

/-- Neither saves nor restores a state. -/
def isFlat (call : Call) : Bool := !call.isSave && !call.isRestore

end Call

/-- Calls that begin with `before` saved states and end with `after` of them, and at no
moment restore more states than there are. -/
structure Nests (before : Nat) (calls : List Call) (after : Nat) : Prop where
  balance : before + calls.countP Call.isSave = after + calls.countP Call.isRestore
  restores_le : ∀ part, part <+: calls →
    part.countP Call.isRestore ≤ before + part.countP Call.isSave

namespace Nests

variable {before middle after : Nat}

/-- Calls that neither save nor restore leave the depth as it is. -/
theorem of_flat {calls : List Call} (hFlat : calls.all Call.isFlat) :
    Nests before calls before := by
  have hNone : ∀ part, part <+: calls →
      part.countP Call.isSave = 0 ∧ part.countP Call.isRestore = 0 := by
    intro part hPart
    simp only [List.countP_eq_zero]
    refine ⟨?_, ?_⟩ <;> intro call hMem <;>
      have hCall := List.all_eq_true.1 hFlat call (hPart.subset hMem) <;>
      simp_all [Call.isFlat]
  refine ⟨?_, ?_⟩
  · rw [(hNone calls List.prefix_rfl).1, (hNone calls List.prefix_rfl).2]
  · intro part hPart
    rw [(hNone part hPart).2]
    exact Nat.zero_le _

theorem saveState (before : Nat) : Nests before [.saveState] (before + 1) where
  balance := rfl
  restores_le part hPart := by
    have hNone : part.countP Call.isRestore = 0 :=
      Nat.le_zero.1 (hPart.sublist.countP_le)
    omega

/-- Restoring comes back by as many levels as there are calls, if so many were saved. -/
theorem restoreStates {count : Nat} (hCount : count ≤ before) :
    Nests before (List.replicate count .restoreState) (before - count) where
  balance := by
    have hSave : (List.replicate count Call.restoreState).countP Call.isSave = 0 := by
      simp [List.countP_replicate, Call.isSave]
    have hRestore : (List.replicate count Call.restoreState).countP Call.isRestore = count := by
      simp [List.countP_replicate, Call.isRestore]
    omega
  restores_le part hPart := by
    have hLength : part.length ≤ count := by
      simpa using hPart.length_le
    have hRestore := part.countP_le_length (p := Call.isRestore)
    omega

/-- Nested calls may be put behind each other where the depths meet. This is all that the steps
of a replay have to be joined by. -/
theorem append {first second : List Call} (hFirst : Nests before first middle)
    (hSecond : Nests middle second after) : Nests before (first ++ second) after where
  balance := by
    have hLeft := hFirst.balance
    have hRight := hSecond.balance
    rw [List.countP_append, List.countP_append]
    omega
  restores_le part hPart := by
    rcases List.prefix_or_prefix_of_prefix hPart (List.prefix_append first second) with
      hInside | ⟨rest, rfl⟩
    · exact hFirst.restores_le part hInside
    · have hLeft := hFirst.balance
      have hRight := hSecond.restores_le rest ((List.prefix_append_right_inj first).1 hPart)
      rw [List.countP_append, List.countP_append]
      omega

end Nests

/-- A machine that keeps count of the saved states with every action does so with every
sequence of actions. -/
theorem Plotter.nests_calls {σ α : Type} (m : Plotter σ α) {depth : σ → Nat}
    (hStep : ∀ s action, Nests (depth s) (m.draw s action) (depth (m.step s action)))
    (s : σ) (actions : List α) : Nests (depth s) (m.calls s actions) (depth (m.run s actions)) := by
  induction actions generalizing s with
  | nil => exact .of_flat rfl
  | cons action rest ih => exact (hStep s action).append (ih (m.step s action))

end Metafile
