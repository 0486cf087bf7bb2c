import Metafile.Emf.Reading
import Metafile.Proofs.Record.Settled
import Metafile.Wmf.Reading

/-! What records can do at all. The kind of a record tells which part of a session its
actions are about, whatever its payload holds. -/

namespace Metafile

namespace Gdi

/-- What an action is about, or all the actions of a record. -/
inductive Effect where
  /-- Nothing is changed and nothing drawn. -/
  | nothing
  | mapping
  | attribute
  /-- An object is created or deleted. -/
  | objects
  | selection
  /-- The current position moves, with or without a line behind it. -/
  | line
  /-- Something is drawn that leaves the current position alone. -/
  | shape
  /-- The context is saved or restored. -/
  | context
  /-- A path is opened, ended, closed, rendered or given up. -/
  | path
deriving Repr, DecidableEq

def Action.effect : Action → Effect
  | .remap _ => .mapping
  | .setAttribute _ => .attribute
  | .create _ | .put _ _ | .delete _ => .objects
  | .select _ => .selection
  | .moveTo _ | .lineTo _ | .polylineTo _ | .bezierTo _ => .line
  | .rectangle _ _ | .ellipse _ _ | .setPixel _ _ | .polyline _ | .polygon _ | .text _ _ => .shape
  | .saveContext | .restoreContext _ => .context
  | .beginPath | .endPath | .closeFigure | .discardPath | .fillPath | .strokePath
  | .strokeAndFillPath => .path

/-- All actions that are read have a property. -/
def Asks (P : Action → Prop) (read : Except Fault (List Action)) : Prop :=
  ∀ actions, read = .ok actions → ∀ action ∈ actions, P action

section

variable {P : Action → Prop} {β : Type}

/-- What is read without a fault asks for the actions that are given. -/
@[simp]
theorem asks_pure {actions : List Action} :
    Asks P (pure actions) ↔ ∀ action ∈ actions, P action := by
  constructor
  · intro h
    exact h actions rfl
  · rintro h _ ⟨⟩
    exact h

@[simp]
theorem asks_nil : Asks P (pure []) := asks_pure.2 nofun

@[simp]
theorem asks_singleton {action : Action} : Asks P (pure [action]) ↔ P action := by
  rw [asks_pure, List.forall_mem_singleton]

@[simp]
theorem asks_map {f : β → Action} {values : List β} :
    Asks P (pure (values.map f)) ↔ ∀ value ∈ values, P (f value) := by
  rw [asks_pure, List.forall_mem_map]

/-- A value that is read first stands for all values that can be read. So properties are proved
along the steps of a reading, without a payload in hand. -/
@[simp]
theorem asks_bind {read : Except Fault β} {rest : β → Except Fault (List Action)} :
    Asks P (read >>= rest) ↔ ∀ value, read = .ok value → Asks P (rest value) := by
  cases read with
  | error fault => simp [Asks, bind, Except.bind]
  | ok value => simp [bind, Except.bind]

end

/-- All actions that are read have the effect. -/
def Yields (effect : Effect) (read : Except Fault (List Action)) : Prop :=
  ∀ actions, read = .ok actions → ∀ action ∈ actions, action.effect = effect

/-- To yield an effect is to ask for actions of this effect only. -/
theorem yields_iff_asks {effect : Effect} {read : Except Fault (List Action)} :
    Yields effect read ↔ Asks (fun action => action.effect = effect) read := Iff.rfl

end Gdi

open Gdi

namespace Wmf

/-- What the records of a kind are about. -/
def Kind.effect : Kind → Effect
  | .setMapMode | .setWindowOrg | .setWindowExt | .setViewportOrg | .setViewportExt
  | .offsetWindowOrg | .offsetViewportOrg | .scaleWindowExt | .scaleViewportExt => .mapping
  | .setBkColor | .setTextColor | .setBkMode | .setRop2 | .setPolyFillMode | .setStretchBltMode
  | .setTextAlign => .attribute
  | .createPenIndirect | .createBrushIndirect | .createFontIndirect | .createPalette
  | .createPatternBrush | .dibCreatePatternBrush | .createRegion | .deleteObject => .objects
  | .selectObject => .selection
  | .moveTo | .lineTo => .line
  | .rectangle | .ellipse | .roundRect | .setPixel | .polyline | .polygon | .polyPolygon | .textOut
  | .extTextOut => .shape
  | .saveDc | .restoreDc => .context
  | .eof | .realizePalette | .setPalEntries | .setRelabs | .setTextCharExtra | .invertRegion
  | .paintRegion | .selectClipRegion | .resizePalette | .setLayout | .setTextJustification
  | .offsetClipRgn | .fillRegion | .setMapperFlags | .selectPalette | .excludeClipRect
  | .intersectClipRect | .floodFill | .frameRegion | .animatePalette | .extFloodFill | .patBlt
  | .escape | .arc | .pie | .chord | .bitBlt | .dibBitBlt | .stretchBlt | .dibStretchBlt
  | .setDibToDev | .stretchDib => .nothing

section

variable {P : Action → Prop} (hText : ∀ text point, P (.text text point)) (p : Bytes)

include hText

/-- A text record asks for a text and for nothing else. -/
theorem asks_textOut : Asks P (textOut p >>= fun action => pure [action]) := by
  refine asks_bind.2 fun action hRead => ?_
  obtain ⟨_, -, hRead⟩ := bind_eq_ok_iff.1 hRead
  obtain ⟨_, -, hRead⟩ := bind_eq_ok_iff.1 hRead
  obtain rfl := Except.ok.inj hRead
  exact asks_singleton.2 (hText _ _)

/-- And so does the extended one, with or without its rectangle. -/
theorem asks_extTextOut : Asks P (extTextOut p >>= fun action => pure [action]) := by
  refine asks_bind.2 fun action hRead => ?_
  obtain ⟨_, -, hRead⟩ := bind_eq_ok_iff.1 hRead
  obtain ⟨_, -, hRead⟩ := bind_eq_ok_iff.1 hRead
  obtain rfl := Except.ok.inj hRead
  exact asks_singleton.2 (hText _ _)

end

/-- The records of a kind ask only for what the kind is about. -/
theorem yields_actions (kind : Kind) (p : Bytes) : Yields kind.effect (actions kind p) := by
  rw [yields_iff_asks]
  cases kind with
  | textOut => exact asks_textOut (fun _ _ => rfl) p
  | extTextOut => exact asks_extTextOut (fun _ _ => rfl) p
  -- With the effects among its lemmas `simp` would unfold the one in the property first.
  | _ => simp only [actions, asks_bind, asks_nil, asks_singleton, asks_map] <;> intros <;> rfl

end Wmf

namespace Emf

/-- What the records of a kind are about. -/
def Kind.effect : Kind → Effect
  | .setMapMode | .setWindowOrgEx | .setWindowExtEx | .setViewportOrgEx | .setViewportExtEx
  | .scaleWindowExtEx | .scaleViewportExtEx => .mapping
  | .setTextColor | .setBkColor | .setBkMode | .setPolyFillMode | .setRop2 | .setStretchBltMode
  | .setTextAlign => .attribute
  | .createPen | .extCreatePen | .createBrushIndirect | .extCreateFontIndirectW | .createMonoBrush
  | .createDibPatternBrushPt | .createPalette | .createColorSpace | .createColorSpaceW
  | .deleteObject | .deleteColorSpace => .objects
  | .selectObject => .selection
  | .moveToEx | .lineTo | .polyLineTo | .polyLineTo16 | .polyBezierTo | .polyBezierTo16 => .line
  | .rectangle | .roundRect | .ellipse | .setPixelV | .polyline | .polyline16 | .polygon
  | .polygon16 | .polyBezier | .polyBezier16 | .polyPolyline | .polyPolyline16 | .polyPolygon
  | .polyPolygon16 | .extTextOutA | .extTextOutW => .shape
  | .saveDc | .restoreDc => .context
  | .beginPath | .endPath | .closeFigure | .fillPath | .strokePath | .strokeAndFillPath
  | .abortPath | .selectClipPath => .path
  | .header | .eof | .comment | .setBrushOrgEx | .setMapperFlags | .setColorAdjustment
  | .offsetClipRgn | .setMetaRgn | .excludeClipRect | .intersectClipRect | .setWorldTransform
  | .modifyWorldTransform | .angleArc | .arc | .chord | .pie | .selectPalette | .setPaletteEntries
  | .resizePalette | .realizePalette | .extFloodFill | .arcTo | .polyDraw | .setArcDirection
  | .setMiterLimit | .flattenPath | .widenPath | .fillRgn | .frameRgn | .invertRgn | .paintRgn
  | .extSelectClipRgn | .bitBlt | .stretchBlt | .maskBlt | .plgBlt | .setDiBitsToDevice
  | .stretchDiBits | .polyDraw16 | .polyTextOutA | .polyTextOutW | .setIcmMode | .setColorSpace
  | .glsRecord | .glsBoundedRecord | .pixelFormat | .drawEscape | .extEscape | .smallTextOut
  | .forceUfiMapping | .namedEscape | .colorCorrectPalette | .setIcmProfileA | .setIcmProfileW
  | .alphaBlend | .setLayout | .transparentBlt | .gradientFill | .setLinkedUfis
  | .setTextJustification | .colorMatchToTargetW => .nothing

section

variable {P : Action → Prop}

/-- A record stores an object at the handle that it names, which is below the limit. -/
theorem asks_storing {limit : Nat} {object : Object} {p : Bytes}
    (hPut : p.u32At 0 < limit → P (.put (p.u32At 0) object)) : Asks P (storing limit p object) := by
  by_cases hLimit : limit ≤ p.u32At 0
  · simp [storing, Asks, hLimit]
  · simp [storing, Asks, hLimit, hPut (Nat.not_le.1 hLimit)]

/-- Curves are asked for as a polyline, or not at all if there is no point. -/
theorem asks_bezier (hPolyline : ∀ flat, P (.polyline flat))
    (read : Except Fault (List (Point Float))) :
    Asks P (read >>= fun points => pure (bezier points)) := by
  refine asks_bind.2 fun points _ => ?_
  cases points with
  | nil => exact asks_nil
  | cons start controls => exact asks_singleton.2 (hPolyline _)

/-- A text record asks for a text, in single bytes as well as in UTF-16. -/
theorem asks_extTextOut (hText : ∀ text point, P (.text text point)) (wide : Bool) (p : Bytes) :
    Asks P (extTextOut wide p >>= fun action => pure [action]) := by
  refine asks_bind.2 fun action hRead => ?_
  obtain ⟨_, -, hRead⟩ := bind_eq_ok_iff.1 hRead
  cases wide with
  | false | true =>
      simp only [Bool.false_eq_true, if_false, if_true] at hRead
      split at hRead
      · cases hRead
      · split at hRead
        · cases hRead
        · obtain rfl := Except.ok.inj hRead
          exact asks_singleton.2 (hText _ _)

end

/-- The records of a kind ask only for what the kind is about. -/
theorem yields_actions (limit : Nat) (kind : Kind) (p : Bytes) :
    Yields kind.effect (actions limit kind p) := by
  rw [yields_iff_asks]
  cases kind with
  | polyBezier | polyBezier16 => exact asks_bezier (fun _ => rfl) _
  | extTextOutA | extTextOutW => exact asks_extTextOut (fun _ _ => rfl) _ p
  | createPen | extCreatePen | createBrushIndirect | extCreateFontIndirectW | createMonoBrush
  | createDibPatternBrushPt | createPalette | createColorSpace | createColorSpaceW =>
      exact asks_bind.2 fun _ _ => asks_storing fun _ => rfl
  | _ => simp only [actions, asks_bind, asks_nil, asks_singleton, asks_map] <;> intros <;> rfl

end Emf

end Metafile
