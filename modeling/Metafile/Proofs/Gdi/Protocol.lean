import Metafile.Gdi.Session
import Metafile.Proofs.Surface.Protocol

/-! The calls of a session. Lines are drawn one by one, and every other call has something to
show, in every session that there can be. -/

namespace Metafile.Gdi.Session

open Call (IsSubstantial)

variable (s : Session)

/-- The style of a stroke has a width that can be seen, whatever the pen and the mapping are. -/
theorem substantial_penCalls : ∀ call ∈ s.penCalls, call.IsSubstantial := by
  unfold penCalls
  split
  · simp [IsSubstantial, Call.IsRegular]
  · simp [IsSubstantial, Call.IsRegular, visibleWidth_pos]

/-- Calls that set colours hold nothing that could be empty. -/
theorem substantial_brushCalls : ∀ call ∈ s.brushCalls, call.IsSubstantial := by
  simp [brushCalls, IsSubstantial, Call.IsRegular]

theorem substantial_fontCalls : ∀ call ∈ s.fontCalls, call.IsSubstantial := by
  unfold fontCalls
  split
  · exact List.forall_mem_nil _
  · dsimp only
    rw [List.forall_mem_singleton, IsSubstantial]
    split
    · assumption
    · decide

section

variable {s} {calls : List Call} (hCalls : ∀ call ∈ calls, call.IsSubstantial)

include hCalls

/-- Calls in the style of the pen hold something to draw if they do so by themselves. -/
theorem substantial_stroked : ∀ call ∈ s.stroked calls, call.IsSubstantial := by
  unfold stroked
  rw [List.forall_mem_append]
  refine ⟨s.substantial_penCalls, ?_⟩
  split
  · exact List.forall_mem_nil _
  · exact hCalls

theorem substantial_filled : ∀ call ∈ s.filled calls, call.IsSubstantial := by
  unfold filled
  rw [List.forall_mem_append]
  refine ⟨s.substantial_brushCalls, ?_⟩
  split
  · exact List.forall_mem_nil _
  · exact hCalls

end

/-- Of a path only figures with enough points are drawn. This is why no empty shape comes out of
it. -/
theorem substantial_map_rendered {path : Path} {count : Nat} {shape : Figure → Call}
    (hCount : 0 < count) (hShape : ∀ figure, figure ≠ [] → (shape figure).IsSubstantial) :
    ∀ call ∈ (path.rendered count).map shape, call.IsSubstantial := by
  rw [List.forall_mem_map]
  intro figure hMem
  have hLength : count ≤ figure.length := by simpa using (List.mem_filter.1 hMem).2
  exact hShape figure (List.ne_nil_of_length_pos (by omega))

/-- The polygon of an ellipse has corners, however small the ellipse is. -/
theorem between_ne_nil (a b : Point Float) : Ellipse.between a b ≠ [] := by
  simp [Ellipse.between, Ellipse.points, Ellipse.corners]

/-- Lines from the current position have this position as one point at least. -/
theorem substantial_drawLinesTo (points : List (Point Float)) :
    ∀ call ∈ s.drawLinesTo points, call.IsSubstantial := by
  unfold drawLinesTo
  split
  · exact List.forall_mem_nil _
  · exact substantial_stroked (by simp [IsSubstantial])

/-- Taking up brush and pen is good in one piece. -/
theorem lineByLine_style : LineByLine IsSubstantial (s.brushCalls ++ s.penCalls) :=
  .append (.of_forall s.substantial_brushCalls) (.of_forall s.substantial_penCalls)

/-- A line outside a path is drawn in one piece: a move, the line and its stroke. All other
shapes are good calls in a row. -/
theorem lineByLine_drawShape (action : Action) :
    LineByLine IsSubstantial (s.drawShape action) := by
  cases action with
  | moveTo point => exact .call trivial .nil
  | lineTo point => exact .append (.of_forall s.substantial_penCalls) (.line _ _ .nil)
  | rectangle corner opposite =>
      exact .append (.of_forall (substantial_filled (by simp [IsSubstantial, Call.IsRegular])))
        (.of_forall (substantial_stroked (by simp [IsSubstantial, Call.IsRegular])))
  | ellipse corner opposite => exact s.lineByLine_style.append (.call (between_ne_nil _ _) .nil)
  | polyline points =>
      cases points with
      | nil => exact .nil
      | cons first rest => exact .of_forall (substantial_stroked (by simp [IsSubstantial]))
  | polygon points =>
      cases points with
      | nil => exact .nil
      | cons first rest => exact s.lineByLine_style.append (.call (List.cons_ne_nil _ _) .nil)
  | polylineTo points => exact .of_forall (s.substantial_drawLinesTo points)
  | bezierTo controls => exact .of_forall (s.substantial_drawLinesTo _)
  | _ => exact .nil

/-- Every action draws good calls and whole lines, in every session. So no line of one record is
left open for the next one. -/
theorem lineByLine_draw (action : Action) : LineByLine IsSubstantial (s.draw action) := by
  cases action with
  | setPixel point color => exact .call trivial (.call trivial .nil)
  | text content reference =>
      simp only [draw]
      split
      case isTrue hEmpty => exact .nil
      case isFalse hText =>
        apply (LineByLine.of_forall s.substantial_fontCalls).append
        apply LineByLine.call trivial
        apply LineByLine.call _ .nil
        simpa [IsSubstantial, String.isEmpty_iff] using hText
  | saveContext => exact .call trivial .nil
  | restoreContext level =>
      simp only [draw]
      split
      · exact .nil
      · exact .of_forall (by simp [IsSubstantial, Call.IsRegular])
  | fillPath =>
      simp only [draw]
      split
      · exact .nil
      · exact (LineByLine.of_forall s.substantial_brushCalls).append
          (.call trivial (.of_forall (substantial_map_rendered (by decide) fun _ h => h)))
  | strokePath =>
      simp only [draw]
      split
      · exact .nil
      · exact .of_forall
          (substantial_stroked (substantial_map_rendered (by decide) fun _ h => h))
  | strokeAndFillPath =>
      simp only [draw]
      split
      · exact .nil
      · exact s.lineByLine_style.append
          (.of_forall (substantial_map_rendered (by decide) fun _ h => h))
  | _ =>
      simp only [draw]
      split
      · exact .nil
      · exact s.lineByLine_drawShape _

/-- Whatever is asked for, the lines are drawn one by one, and there is something to show
in every other call. -/
theorem lineByLine_calls (actions : List Action) :
    LineByLine IsSubstantial (plotter.calls s actions) :=
  .calls_of_draw plotter lineByLine_draw s actions

end Metafile.Gdi.Session
