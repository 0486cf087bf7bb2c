import Metafile.Proofs.Gdi.Drawing
import Metafile.Proofs.Surface.Lettering

/-! The font of a context and that of its surface. A text brings the font along that is
selected, and without a selected one it inherits that of the surface. -/

namespace Metafile.Gdi

/-- The action draws a text on the surface. -/
def Action.writes : Action → Bool
  | .text content _ => !content.isEmpty
  | _ => false

namespace Session

/-- Every text finds a selected font that passes the test. -/
def writesIn (good : Font → Bool) : Session → List Action → Bool
  | _, [] => true
  | s, action :: rest =>
    (!action.writes || s.dc.font.any good) && writesIn good (s.step action) rest

variable {sets : Call → Bool} {good : Font → Bool}

theorem silent_draw (s : Session) {action : Action} (hWrites : action.writes = false) :
    ∀ call ∈ s.draw action, call.text? = none := by
  have hSilent : ∀ calls : List Call, calls.all Call.isPlain →
      ∀ call ∈ calls, call.text? = none := by
    intro calls hPlain call hMem
    have hCall := List.all_eq_true.1 hPlain call hMem
    cases call <;> first | rfl | cases hCall
  cases action with
  | saveContext => exact List.forall_mem_singleton.2 rfl
  | restoreContext level =>
      simp only [draw]
      split
      · exact fun call hMem => absurd hMem List.not_mem_nil
      · intro call hMem
        rw [List.eq_of_mem_replicate hMem]
        rfl
  | text content reference =>
      have hEmpty : content.isEmpty := by simpa [Action.writes] using hWrites
      simp [draw, hEmpty]
  | _ => exact hSilent _ (s.plain_draw rfl)

/-- The font of a text is set before the text is drawn. -/
theorem inherits_draw (hGood : ∀ font size, good font → sets (.setFont font.face size))
    (s : Session) {action : Action} (hWrites : !action.writes || s.dc.font.any good) :
    Lettering.inherits sets (s.draw action) = false := by
  cases hText : action.writes with
  | false => exact Lettering.inherits_of_silent (s.silent_draw hText)
  | true =>
      rw [hText, Bool.not_true, Bool.false_or, Option.any_eq_true] at hWrites
      obtain ⟨font, hFont, hPasses⟩ := hWrites
      cases action with
      | text content reference =>
          have hEmpty : content.isEmpty = false := by simpa [Action.writes] using hText
          obtain ⟨point, hDraw⟩ := s.draw_text hEmpty reference
          rw [hDraw, fontCalls, hFont]
          simp [hGood font _ hPasses]
      | _ => cases hText

/-- While good fonts are selected, no text inherits what they decide. -/
theorem inherits_calls (hGood : ∀ font size, good font → sets (.setFont font.face size))
    {s : Session} {actions : List Action} (hWrites : s.writesIn good actions) :
    Lettering.inherits sets (plotter.calls s actions) = false := by
  induction actions generalizing s with
  | nil => rfl
  | cons action rest ih =>
      rw [writesIn, Bool.and_eq_true] at hWrites
      exact Lettering.inherits_append (s.inherits_draw hGood hWrites.1) (ih hWrites.2)

end Session

end Metafile.Gdi
