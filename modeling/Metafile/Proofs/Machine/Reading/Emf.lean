import Metafile.Emf.Reading
import Metafile.Proofs.Machine.Fits
import Metafile.Proofs.Machine.Reading
import Metafile.Proofs.Machine.Stream

/-! Reading EMF records on the machine. Counts and places in them are whole 32-bit numbers, so
that products and sums of them may pass 32 bits, but never 64. -/

namespace Metafile.Machine.Emf

open Word Metafile.Emf Gdi

def points (l : Layout (Point Float)) (p : Bytes) : Run (List (Point Float)) := do
  p.need (boundsSize + 4)
  let count := p.u32At boundsSize
  p.need (← add (← mul count l.size) (boundsSize + 4))
  return l.list p (boundsSize + 4) count

def pointGroups (l : Layout (Point Float)) (p : Bytes) : Run (List (List (Point Float))) := do
  p.need (boundsSize + 8)
  let shapes := p.u32At boundsSize
  let total := p.u32At (boundsSize + 4)
  let start ← add (← mul shapes 4) (boundsSize + 8)
  p.need start
  let counts := Layout.dword.list p (boundsSize + 8) shapes
  if (← sum counts) ≠ total then throw (.countsDisagree total)
  p.need (← add (← mul total l.size) start)
  return l.lists p start counts

/-- The first point is split off only where there is one. -/
def bezier : List (Point Float) → Option (List Action)
  | [] => some []
  | start :: controls => do return [.polyline (← Bezier.flatten start controls)]

/-- The text of bytes in one of the two encodings. -/
def textOf (wide : Bool) (bytes : Bytes) : Option String :=
  if wide then Text.ofUtf16 bytes else some (Metafile.Text.ofWindows1252 bytes)

def extTextOut (wide : Bool) (p : Bytes) : Run Action := do
  p.need 44
  let characters := p.u32At 36
  let place := p.u32At 40
  if place < 8 then throw .textInsideHeader
  let start ← sub place 8
  let length := if wide then mulSaturating characters 2 else characters
  let stop ← add start length
  if p.size < stop then throw (.textPastRecord characters place)
  let bytes ← slice p start stop
  return .text (← textOf wide bytes) (drawnPoint p 28)

def fontAt (p : Bytes) (start : Nat) : Option Font := do
  let (name, _) ← (Reader.skip ⟨p, start⟩ 28).bytes 64
  let text ← Text.ofUtf16 name
  return ⟨p.i32At start, p.i32At (start + 16), p.u8At (start + 20) != 0,
    String.ofList (text.toList.takeWhile (· != '\x00'))⟩

def actions (limit : Nat) (kind : Kind) (p : Bytes) : Run (List Action) := do
  match kind with
  | .extCreateFontIndirectW => p.need 96; storing limit p (.font (← fontAt p 4))
  | .polyline => return [.polyline (← points .longPoint p)]
  | .polyline16 => return [.polyline (← points .shortPoint p)]
  | .polygon => return [.polygon (← points .longPoint p)]
  | .polygon16 => return [.polygon (← points .shortPoint p)]
  | .polyLineTo => return [.polylineTo (← points .longPoint p)]
  | .polyLineTo16 => return [.polylineTo (← points .shortPoint p)]
  | .polyBezier => bezier (← points .longPoint p)
  | .polyBezier16 => bezier (← points .shortPoint p)
  | .polyBezierTo => return [.bezierTo (← points .longPoint p)]
  | .polyBezierTo16 => return [.bezierTo (← points .shortPoint p)]
  | .polyPolyline => return (← pointGroups .longPoint p).map Action.polyline
  | .polyPolyline16 => return (← pointGroups .shortPoint p).map Action.polyline
  | .polyPolygon => return (← pointGroups .longPoint p).map Action.polygon
  | .polyPolygon16 => return (← pointGroups .shortPoint p).map Action.polygon
  | .extTextOutA => return [← extTextOut false p]
  | .extTextOutW => return [← extTextOut true p]
  | _ => Metafile.Emf.actions limit kind p

/-- A record without a kind is looked at for bounds, which are only reported. -/
def reading (limit : Nat) (r : Record) : Option (Reading Action) := do
  match Kind.ofCode? r.opcode with
  | none =>
    if boundsSize ≤ r.payload.size then
      let _ ← Rect.isEmpty (Header.rectAt r.payload 0)
    return .unhandled
  | some kind => (actions limit kind r.payload).reading

section

variable {p : Bytes}

/-- The number of points is a field of 32 bits and a point has eight bytes at the most. So the
room for them may pass 32 bits, but not the greatest word. -/
theorem points_agrees {l : Layout (Point Float)} (hSmall : l.size ≤ 8) :
    Agrees (points l p) (Metafile.Emf.points l p) := by
  refine .need fun _ => ?_
  have hCount : p.u32At boundsSize < 256 ^ 4 := Bytes.field_lt ..
  have hBytes : p.u32At boundsSize * l.size ≤ p.u32At boundsSize * 8 :=
    Nat.mul_le_mul_left _ hSmall
  have hBounds : boundsSize = 16 := rfl
  refine .word (mul_eq (by omega)) (.word (add_eq (by omega)) ?_)
  rw [Nat.add_comm, Nat.mul_comm]
  exact .need fun _ => agrees_pure _

/-- The lengths of groups are added up without passing a word, before their sum is compared to
the number of all points. -/
theorem pointGroups_agrees {l : Layout (Point Float)} (hSmall : l.size ≤ 8) :
    Agrees (pointGroups l p) (Metafile.Emf.pointGroups l p) := by
  refine .need fun _ => ?_
  have hShapes : p.u32At boundsSize < 256 ^ 4 := Bytes.field_lt ..
  have hTotal : p.u32At (boundsSize + 4) < 256 ^ 4 := Bytes.field_lt ..
  have hBytes : p.u32At (boundsSize + 4) * l.size ≤ p.u32At (boundsSize + 4) * 8 :=
    Nat.mul_le_mul_left _ hSmall
  have hSum : Layout.total (Layout.dword.list p (boundsSize + 8) (p.u32At boundsSize)) ≤
      p.u32At boundsSize * 0xFFFFFFFF :=
    total_list_le (fun p start => Nat.le_of_lt_succ (Bytes.field_lt p start 4)) ..
  have hBounds : boundsSize = 16 := rfl
  refine .word (mul_eq (by omega)) (.word (add_eq (by omega)) ?_)
  rw [Nat.add_comm (_ * 4), Nat.mul_comm (p.u32At boundsSize)]
  refine .need fun _ => .word (sum_eq (by omega)) ?_
  dsimp only
  split
  case isTrue hDisagree => exact agrees_throw _
  case isFalse hAgree =>
    refine .word (mul_eq (by omega)) (.word (add_eq (by omega)) ?_)
    rw [Nat.add_comm, Nat.mul_comm (p.u32At (boundsSize + 4))]
    exact .need fun _ => agrees_pure _

theorem bezier_eq (points : List (Point Float)) :
    bezier points = some (Metafile.Emf.bezier points) := by
  cases points with
  | nil => rfl
  | cons start controls =>
      rw [bezier, Bezier.flatten_eq]
      rfl

theorem textOf_eq (wide : Bool) (bytes : Bytes) : textOf wide bytes = some
    (if wide then Metafile.Text.ofUtf16 bytes else Metafile.Text.ofWindows1252 bytes) := by
  cases wide with
  | true => exact Text.ofUtf16_eq bytes
  | false => rfl

/-- The place of a text counts from the start of the record. The machine subtracts the header
only if the place lies behind it. -/
theorem extTextOut_agrees (wide : Bool) :
    Agrees (extTextOut wide p) (Metafile.Emf.extTextOut wide p) := by
  refine .need fun _ => ?_
  have hCharacters : p.u32At 36 < 256 ^ 4 := Bytes.field_lt ..
  have hPlace : p.u32At 40 < 256 ^ 4 := Bytes.field_lt ..
  have hLength : (if wide then mulSaturating (p.u32At 36) 2 else p.u32At 36) =
      if wide then 2 * p.u32At 36 else p.u32At 36 := by
    rw [mulSaturating_eq (by omega), Nat.mul_comm]
  have hSmall : (if wide then 2 * p.u32At 36 else p.u32At 36) < 2 ^ 33 := by
    split <;> omega
  dsimp only
  split
  case isTrue => exact agrees_throw _
  case isFalse hBehind =>
    refine .word (sub_eq (Nat.not_lt.1 hBehind)) ?_
    rw [hLength]
    generalize (if wide then 2 * p.u32At 36 else p.u32At 36) = length at hSmall ⊢
    refine .word (add_eq (by omega)) ?_
    split
    case isTrue => exact agrees_throw _
    case isFalse hInside =>
      refine .word (slice_eq (by omega) (Nat.not_lt.1 hInside)) ?_
      exact .word (textOf_eq wide _) (agrees_pure _)

/-- A font is read from a payload with room for its fixed fields. The name behind them may be cut
off by the end of the payload. -/
theorem fontAt_eq (hSize : p.size < 2 ^ 63) {start : Nat} (hRoom : start + 28 ≤ p.size) :
    fontAt p start = some (Metafile.Emf.fontAt p start) := by
  simp only [fontAt, Reader.skip_of_fits hSize hRoom, Reader.bytes_eq hSize hRoom,
    Option.bind_eq_bind, Option.bind_some, Text.ofUtf16_eq]
  rfl

/-- Records of every kind are read without stopping. Kinds that are read in the same way are
proved together. -/
theorem actions_agrees (hSize : p.size < 2 ^ 63) (limit : Nat) (kind : Kind) :
    Agrees (actions limit kind p) (Metafile.Emf.actions limit kind p) := by
  have hLong : (Layout.longPoint (α := Float)).size ≤ 8 := Nat.le_refl 8
  have hShort : (Layout.shortPoint (α := Float)).size ≤ 8 := by decide
  cases kind with
  | extCreateFontIndirectW =>
      exact .need fun hRoom => .word (fontAt_eq hSize (by omega)) (agrees_lift _)
  | polyline | polygon | polyLineTo | polyBezierTo =>
      exact (points_agrees hLong).bind fun _ _ => agrees_pure _
  | polyline16 | polygon16 | polyLineTo16 | polyBezierTo16 =>
      exact (points_agrees hShort).bind fun _ _ => agrees_pure _
  | polyBezier => exact (points_agrees hLong).bind fun _ _ => agrees_word (bezier_eq _)
  | polyBezier16 => exact (points_agrees hShort).bind fun _ _ => agrees_word (bezier_eq _)
  | polyPolyline | polyPolygon => exact (pointGroups_agrees hLong).bind fun _ _ => agrees_pure _
  | polyPolyline16 | polyPolygon16 =>
      exact (pointGroups_agrees hShort).bind fun _ _ => agrees_pure _
  | extTextOutA => exact (extTextOut_agrees false).bind fun _ _ => agrees_pure _
  | extTextOutW => exact (extTextOut_agrees true).bind fun _ _ => agrees_pure _
  | _ => exact agrees_lift _

/-- So the machine reads every record of EMF as it is to be read, also one of no known kind. -/
theorem reading_eq {r : Record} (hSize : r.payload.size < 2 ^ 63) (limit : Nat) :
    reading limit r = some (Metafile.Emf.reading limit r) := by
  unfold reading Metafile.Emf.reading
  cases Kind.ofCode? r.opcode with
  | none =>
      simp only [Rect.isEmpty_eq (Emf.Header.fits_rectAt r.payload 0)]
      split <;> rfl
  | some kind => exact (actions_agrees hSize limit kind).reading_eq

end

end Metafile.Machine.Emf
