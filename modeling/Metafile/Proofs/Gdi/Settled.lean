import Metafile.Proofs.Gdi.Effect
import Metafile.Proofs.Gdi.Hatch
import Metafile.Proofs.Record.Settled

/-! WMF and EMF records with more bytes than they need. A record that is carried out asks
for the same when more bytes follow its payload. Two kinds of WMF records are different:
the hatch of a brush and the face of a font may be cut off without a fault. -/

namespace Metafile

open Gdi

namespace Wmf

/-- The number of points tells where they end, and bytes behind them are not read. -/
theorem settled_countedPoints : Settled countedPoints := by
  intro p extra found hRead
  refine Bytes.need_bind_append hRead ?_
  intro hSize hRead
  simp only [Bytes.i16At_append extra hSize] at hRead ⊢
  split at hRead
  case isTrue => cases hRead
  case isFalse hSign =>
    rw [if_neg hSign]
    refine Bytes.need_bind_append hRead ?_
    intro hFits hRead
    rwa [Layout.list_append Layout.local_shortPoint extra hFits]

/-- With several polygons the lengths in front tell this. -/
theorem settled_countedPolygons : Settled countedPolygons := by
  intro p extra found hRead
  refine Bytes.need_bind_append hRead ?_
  intro hSize hRead
  simp only [Bytes.u16At_append extra hSize] at hRead ⊢
  refine Bytes.need_bind_append hRead ?_
  intro hCounts hRead
  simp only [Layout.list_append Layout.local_word extra hCounts] at hRead ⊢
  refine Bytes.need_bind_append hRead ?_
  intro hFits hRead
  rwa [Layout.lists_append Layout.local_shortPoint extra hFits]

/-- The point of a text stands behind the text, at a place that its length tells. It is not
counted from the end of the payload. -/
theorem settled_textOut : Settled textOut := by
  intro p extra action hRead
  refine Bytes.need_bind_append hRead ?_
  intro hSize hRead
  simp only [Bytes.i16At_append extra hSize] at hRead ⊢
  refine Bytes.need_bind_append hRead ?_
  intro hFits hRead
  rw [← hRead]
  simp (disch := omega) only [Bytes.slice_append, drawnPoint, reversedPoint, Bytes.i16At_append]

/-- The text stands behind its point, with a rectangle in between if the options say so. -/
theorem settled_extTextOut : Settled extTextOut := by
  intro p extra action hRead
  refine Bytes.need_bind_append hRead ?_
  intro hSize hRead
  simp (disch := omega) only [Bytes.i16At_append, Bytes.u16At_append] at hRead ⊢
  refine Bytes.need_bind_append hRead ?_
  intro hFits hRead
  rw [← hRead, Bytes.slice_append extra hFits]
  simp (disch := omega) only [drawnPoint, reversedPoint, Bytes.i16At_append]

/-- Of all kinds two are left out here. Their records are read up to the end of the payload: a
face of a font may be cut off, and so may a hatch. -/
theorem settled_actions {kind : Kind} (hBrush : kind ≠ .createBrushIndirect)
    (hFont : kind ≠ .createFontIndirect) : Settled (actions kind) := by
  cases kind with
  | createBrushIndirect => exact absurd rfl hBrush
  | createFontIndirect => exact absurd rfl hFont
  | setMapMode | setWindowOrg | setWindowExt | setViewportOrg | setViewportExt | offsetWindowOrg
  | offsetViewportOrg | scaleWindowExt | scaleViewportExt | setBkColor | setTextColor | setBkMode
  | setRop2 | setPolyFillMode | setStretchBltMode | setTextAlign | createPenIndirect
  | selectObject | deleteObject | moveTo | lineTo | rectangle | ellipse | roundRect | setPixel
  | restoreDc =>
      apply Settled.need
      intro p extra hSize
      simp (disch := omega) only [drawnPoint, reversedPoint, reversedSize, reversedRatio, penAt,
        Bytes.u16At_append, Bytes.u32At_append, Bytes.i16At_append]
  | polyline | polygon => exact settled_countedPoints.map _
  | polyPolygon => exact settled_countedPolygons.map _
  | textOut => exact settled_textOut.map _
  | extTextOut => exact settled_extTextOut.map _
  | _ => exact Settled.pure _

/-- Only the hatch of a brush may lie behind the bytes that a record must have. -/
theorem exists_actions_append {kind : Kind} (hFont : kind ≠ .createFontIndirect) {p : Bytes}
    {asked : List Action} (hRead : actions kind p = .ok asked) (extra : Bytes) :
    ∃ more, actions kind (p ++ extra) = .ok more ∧
      more.map Action.unhatched = asked.map Action.unhatched := by
  by_cases hBrush : kind = .createBrushIndirect
  · subst hBrush
    obtain ⟨⟨⟩, hNeed, hValue⟩ := bind_eq_ok_iff.1 hRead
    have hSize := Bytes.need_eq_ok_iff.1 hNeed
    obtain rfl := Except.ok.inj hValue
    refine ⟨[.create (.brush (brushAt (p ++ extra) 0))], ?_, ?_⟩
    · simp only [actions, Bytes.need_append extra hSize]
      rfl
    · simp (disch := omega) only [brushAt, List.map_cons, Action.unhatched, Object.unhatched,
        Brush.unhatched, Bytes.u16At_append, Bytes.u32At_append]
  · exact ⟨asked, settled_actions hBrush hFont p extra asked hRead, rfl⟩

end Wmf

namespace Emf

/-- An object that is made of the bytes required is the same if there are more of them, and so is
its handle. -/
theorem settled_storing (limit : Nat) {required : Nat} (hHandle : 4 ≤ required)
    {object : Bytes → Object}
    (hSame : ∀ p extra, required ≤ p.size → object (p ++ extra) = object p) :
    Settled fun p => p.need required >>= fun _ => storing limit p (object p) := by
  intro p extra asked hRead
  refine Bytes.need_bind_append hRead ?_
  intro hSize hRead
  rw [← hRead, storing, storing, hSame p extra hSize, Bytes.u32At_append extra (by omega)]

/-- Points are counted by a number in front of them. -/
theorem settled_points {layout : Layout (Point Float)} (hLocal : layout.Local) :
    Settled (points layout) := by
  intro p extra found hRead
  refine Bytes.need_bind_append hRead ?_
  intro hSize hRead
  simp only [Bytes.u32At_append extra hSize] at hRead ⊢
  refine Bytes.need_bind_append hRead ?_
  intro hFits hRead
  rwa [Layout.list_append hLocal extra hFits]

/-- And so are groups of points, with all their lengths in front. -/
theorem settled_pointGroups {layout : Layout (Point Float)} (hLocal : layout.Local) :
    Settled (pointGroups layout) := by
  intro p extra found hRead
  refine Bytes.need_bind_append hRead ?_
  intro hSize hRead
  simp (disch := omega) only [Bytes.u32At_append] at hRead ⊢
  refine Bytes.need_bind_append hRead ?_
  intro hCounts hRead
  simp only [Layout.list_append Layout.local_dword extra hCounts] at hRead ⊢
  split at hRead
  case isTrue => cases hRead
  case isFalse hTotal =>
    rw [if_neg hTotal]
    refine Bytes.need_bind_append hRead ?_
    intro hFits hRead
    rw [Decidable.not_not] at hTotal
    rw [← hTotal] at hFits
    rwa [Layout.lists_append hLocal extra hFits]

/-- The place and the length of a text are in the record, which may have other bytes behind. -/
theorem settled_extTextOut (wide : Bool) : Settled (extTextOut wide) := by
  intro p extra action hRead
  refine Bytes.need_bind_append hRead ?_
  intro hSize hRead
  simp (disch := omega) only [Bytes.u32At_append] at hRead ⊢
  split at hRead
  case isTrue => cases hRead
  case isFalse hInside =>
    rw [if_neg hInside]
    cases wide with
    | false | true =>
        simp only [Bool.false_eq_true, if_false, if_true] at hRead ⊢
        split at hRead
        case isTrue => cases hRead
        case isFalse hFits =>
          rw [if_neg (by rw [Array.size_append]; omega), ← hRead,
            Bytes.slice_append extra (Nat.le_of_not_lt hFits)]
          simp (disch := omega) only [drawnPoint, pointAt, Bytes.i32At_append]

/-- Records of EMF are never read beyond the bytes they require. -/
theorem settled_actions (limit : Nat) (kind : Kind) : Settled (actions limit kind) := by
  cases kind with
  | setMapMode | setWindowOrgEx | setWindowExtEx | setViewportOrgEx | setViewportExtEx
  | scaleWindowExtEx | scaleViewportExtEx | setTextColor | setBkColor | setBkMode
  | setPolyFillMode | setRop2 | setStretchBltMode | setTextAlign | selectObject | deleteObject
  | deleteColorSpace | moveToEx | lineTo | rectangle | roundRect | ellipse | setPixelV
  | restoreDc =>
      apply Settled.need
      intro p extra hSize
      simp (disch := omega) only [drawnPoint, pointAt, sizeAt, ratioAt, colorAt,
        Bytes.u32At_append, Bytes.i32At_append]
  | createPen | extCreatePen | createBrushIndirect | extCreateFontIndirectW | createMonoBrush
  | createDibPatternBrushPt | createPalette | createColorSpace | createColorSpaceW =>
      apply settled_storing limit (by decide)
      intro p extra hSize
      simp (disch := omega) only [penAt, extendedPenAt, brushAt, fontAt, colorAt,
        Bytes.slice_append, Bytes.u8At_append, Bytes.u32At_append, Bytes.i32At_append]
  | polyline | polygon | polyLineTo | polyBezier | polyBezierTo =>
      exact (settled_points Layout.local_longPoint).map _
  | polyline16 | polygon16 | polyLineTo16 | polyBezier16 | polyBezierTo16 =>
      exact (settled_points Layout.local_shortPoint).map _
  | polyPolyline | polyPolygon => exact (settled_pointGroups Layout.local_longPoint).map _
  | polyPolyline16 | polyPolygon16 => exact (settled_pointGroups Layout.local_shortPoint).map _
  | extTextOutA | extTextOutW => exact (settled_extTextOut _).map _
  | _ => exact Settled.pure _

end Emf

end Metafile
