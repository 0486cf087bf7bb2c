import Metafile.Proofs.Machine.Fits
import Metafile.Proofs.Machine.Reading
import Metafile.Proofs.Machine.Stream
import Metafile.Wmf.Reading

/-! Reading WMF records on the machine. The kinds that are named in `actions` compute with counts
and places; all others read fields at fixed places and stop nowhere. -/

namespace Metafile.Machine

open Word

namespace Wmf

open Metafile.Wmf Gdi

def countedPoints (p : Bytes) : Run (List (Point Float)) := do
  p.need 2
  let count := p.i16At 0
  if count < 0 then throw (.negativeCount count)
  p.need (← add 2 (← mul count.toNat 4))
  return Layout.shortPoint.list p 2 count.toNat

def countedPolygons (p : Bytes) : Run (List (List (Point Float))) := do
  p.need 2
  let polygons := p.u16At 0
  p.need (← add 2 (← mul polygons 2))
  let counts := Layout.word.list p 2 polygons
  let total ← sum counts
  p.need (← add (← add 2 (← mul polygons 2)) (← mul total 4))
  return Layout.shortPoint.lists p (2 + 2 * polygons) counts

/-- The text is cut out of the padded bytes. -/
def textOut (p : Bytes) : Run Action := do
  p.need 2
  let length := (p.i16At 0).toNat
  let padded ← add length (length % 2)
  p.need (← add (← add 2 padded) 4)
  let (bytes, r) ← Reader.bytes ⟨p, 2⟩ padded
  return .text (Metafile.Text.ofWindows1252 (bytes.slice 0 length)) (drawnPoint p r.position)

def extTextOut (p : Bytes) : Run Action := do
  p.need 8
  let length := (p.i16At 4).toNat
  let options := p.u16At 6
  let needed ← add 8 length
  if options.testBit 1 || options.testBit 2 then
    p.need (← add needed 8)
    let (bytes, _) ← Reader.bytes ⟨p, 16⟩ length
    return .text (Metafile.Text.ofWindows1252 bytes) (drawnPoint p 0)
  p.need needed
  let (bytes, _) ← Reader.bytes ⟨p, 8⟩ length
  return .text (Metafile.Text.ofWindows1252 bytes) (drawnPoint p 0)

/-- The face is cut off at the first zero. -/
def fontAt (p : Bytes) (start : Nat) : Option Font := do
  let (name, _) ← (Reader.skip ⟨p, start⟩ 18).bytes 32
  let stop := (name.findIdx? (· == 0)).getD name.size
  let face ← slice name 0 stop
  return ⟨p.i16At start, p.i16At (start + 8), p.u8At (start + 10) != 0,
    Metafile.Text.ofWindows1252 face⟩

def actions (kind : Kind) (p : Bytes) : Run (List Action) := do
  match kind with
  | .createFontIndirect => p.need 18; return [.create (.font (← fontAt p 0))]
  | .polyline => return [.polyline (← countedPoints p)]
  | .polygon => return [.polygon (← countedPoints p)]
  | .polyPolygon => return (← countedPolygons p).map Action.polygon
  | .textOut => return [← textOut p]
  | .extTextOut => return [← extTextOut p]
  | _ => Metafile.Wmf.actions kind p

def reading (r : Record) : Option (Reading Action) :=
  match Kind.ofCode? (r.opcode % 0x10000) with
  | none => some .unhandled
  | some kind => (actions kind r.payload).reading

section

variable {p : Bytes}

theorem toNat_i16At_lt (start : Nat) : (p.i16At start).toNat < 2 ^ 31 := by
  have hHalf := p.isHalf_i16At start
  unfold IsHalf at hHalf
  omega

/-- The number of points is a signed field of 16 bits, and the room for as many is far below the
greatest word. -/
theorem countedPoints_agrees : Agrees (countedPoints p) (Metafile.Wmf.countedPoints p) := by
  refine .need fun _ => ?_
  dsimp only
  split
  case isTrue hNegative => exact agrees_throw _
  case isFalse hCount =>
    have hSmall := toNat_i16At_lt (p := p) 0
    refine .word (mul_eq (by omega)) (.word (add_eq (by omega)) ?_)
    rw [Nat.mul_comm]
    exact .need fun _ => agrees_pure _

/-- Both the number of polygons and their lengths are fields of 16 bits, and so the room for all
of their points is a word. -/
theorem countedPolygons_agrees :
    Agrees (countedPolygons p) (Metafile.Wmf.countedPolygons p) := by
  refine .need fun _ => ?_
  have hPolygons : p.u16At 0 < 256 ^ 2 := Bytes.field_lt ..
  have hTotal : Layout.total (Layout.word.list p 2 (p.u16At 0)) ≤ p.u16At 0 * 0xFFFF :=
    total_list_le (fun p start => Nat.le_of_lt_succ (Bytes.field_lt p start 2)) ..
  refine .word (mul_eq (by omega)) (.word (add_eq (by omega)) ?_)
  rw [Nat.mul_comm]
  refine .need fun _ => .word (sum_eq (by omega)) ?_
  refine .word (mul_eq (by omega)) (.word (add_eq (by omega)) ?_)
  refine .word (mul_eq (by omega)) (.word (add_eq (by omega)) ?_)
  rw [Nat.mul_comm (p.u16At 0), Nat.mul_comm (Layout.total _)]
  exact .need fun _ => agrees_pure _

/-- The length of a text is read as a signed word and taken as zero if it is negative. -/
theorem textOut_agrees (hSize : p.size < 2 ^ 63) :
    Agrees (textOut p) (Metafile.Wmf.textOut p) := by
  refine .need fun _ => ?_
  have hSmall := toNat_i16At_lt (p := p) 0
  refine .word (add_eq (by omega)) (.word (add_eq (by omega)) (.word (add_eq (by omega)) ?_))
  refine .need fun hRoom => .word (Reader.bytes_eq hSize (by omega)) ?_
  have hText : (p.slice 2 ((p.i16At 0).toNat + (p.i16At 0).toNat % 2)).slice 0 (p.i16At 0).toNat =
      p.slice 2 (p.i16At 0).toNat := by
    simp only [Bytes.slice, Array.extract_extract]
    congr 1
    omega
  dsimp only
  rw [hText, Nat.min_eq_left (by omega)]
  exact agrees_pure _

theorem extTextOut_agrees (hSize : p.size < 2 ^ 63) :
    Agrees (extTextOut p) (Metafile.Wmf.extTextOut p) := by
  have hSmall := toNat_i16At_lt (p := p) 4
  refine .need fun _ => .word (add_eq (by omega)) ?_
  dsimp only
  cases hBox : (p.u16At 6).testBit 1 || (p.u16At 6).testBit 2 with
  | true =>
      refine .word (add_eq (by omega)) ?_
      rw [Nat.add_right_comm]
      refine .need fun hRoom => .word (Reader.bytes_eq hSize (by omega)) (agrees_pure _)
  | false =>
      exact .need fun hRoom => .word (Reader.bytes_eq hSize (by omega)) (agrees_pure _)

/-- A font is read from a payload with room for its fixed fields. The face behind them may be cut
off by the end of the payload. -/
theorem fontAt_eq (hSize : p.size < 2 ^ 63) {start : Nat} (hRoom : start + 18 ≤ p.size) :
    fontAt p start = some (Metafile.Wmf.fontAt p start) := by
  have hStop (name : Bytes) : (name.findIdx? (· == 0)).getD name.size ≤ name.size := by
    rw [← Array.findIdx_eq_getD_findIdx?]
    exact Array.findIdx_le_size
  have hFace (name : Bytes) : name.extract 0 ((name.findIdx? (· == 0)).getD name.size) =
      name.takeWhile (· != 0) := by
    rw [Array.takeWhile_eq_extract_findIdx_not, ← Array.findIdx_eq_getD_findIdx?]
    simp only [bne, Bool.not_not]
  simp only [fontAt, Reader.skip_of_fits hSize hRoom, Reader.bytes_eq hSize hRoom,
    Option.bind_eq_bind, Option.bind_some, slice_eq (Nat.zero_le _) (hStop _), hFace]
  rfl

/-- Records of every kind are read without stopping. Those that neither count nor compute a place
are read as they are. -/
theorem actions_agrees (hSize : p.size < 2 ^ 63) (kind : Kind) :
    Agrees (actions kind p) (Metafile.Wmf.actions kind p) := by
  cases kind with
  | createFontIndirect =>
      exact .need fun hRoom => .word (fontAt_eq hSize (by omega)) (agrees_pure _)
  | polyline => exact countedPoints_agrees.bind fun _ _ => agrees_pure _
  | polygon => exact countedPoints_agrees.bind fun _ _ => agrees_pure _
  | polyPolygon => exact countedPolygons_agrees.bind fun _ _ => agrees_pure _
  | textOut => exact (textOut_agrees hSize).bind fun _ _ => agrees_pure _
  | extTextOut => exact (extTextOut_agrees hSize).bind fun _ _ => agrees_pure _
  | _ => exact agrees_lift _

/-- So the machine reads every record of WMF as it is to be read. -/
theorem reading_eq {r : Record} (hSize : r.payload.size < 2 ^ 63) :
    reading r = some (Metafile.Wmf.reading r) := by
  unfold reading Metafile.Wmf.reading
  cases Kind.ofCode? (r.opcode % 0x10000) with
  | none => rfl
  | some kind => exact (actions_agrees hSize kind).reading_eq

end

end Wmf

end Metafile.Machine
