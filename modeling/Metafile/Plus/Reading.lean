import Metafile.Plus.Kind
import Metafile.Plus.Session
import Metafile.Record.Reading
import Metafile.Text.Encoding

/-! What EMF+ records ask for. Flags of the record tell how coordinates are stored
and whether a colour stands in place of a brush. -/

namespace Metafile.Plus

/-- What the flags of a record say. -/
structure Flags where
  bits : Nat

namespace Flags

/-- The object that the record defines or the pen that it draws with. -/
def handle (f : Flags) : Nat := f.bits % 0x100

def objectType (f : Flags) : Nat := f.bits / 0x100 % 0x80

/-- Lines lead back to their start. -/
def closed (f : Flags) : Bool := f.bits.testBit 13

/-- A matrix acts after the present transform. It is the same flag as `closed`. -/
def append (f : Flags) : Bool := f.bits.testBit 13

/-- Coordinates are stored as 16-bit integers. -/
def compressed (f : Flags) : Bool := f.bits.testBit 14

/-- The brush field holds a colour. -/
def solid (f : Flags) : Bool := f.bits.testBit 15

end Flags

def floatAt (p : Bytes) (start : Nat) : Float := (p.f32At start).toFloat

def shortAt (p : Bytes) (start : Nat) : Float := Float.ofInt (p.i16At start)

def pointLayout (compressed : Bool) : Layout (Point Float) :=
  if compressed then .shortPoint
  else ⟨8, fun p start => ⟨floatAt p start, floatAt p (start + 4)⟩⟩

/-- Boxes are stored by their corner and their size. -/
def boxLayout (compressed : Bool) : Layout Box :=
  if compressed then
    ⟨8, fun p start =>
      ⟨shortAt p start, shortAt p (start + 2), shortAt p (start + 4), shortAt p (start + 6)⟩⟩
  else
    ⟨16, fun p start =>
      ⟨floatAt p start, floatAt p (start + 4), floatAt p (start + 8), floatAt p (start + 12)⟩⟩

/-- One value at a place of the payload. -/
def single {α : Type} (layout : Layout α) (p : Bytes) (start : Nat) : Except Fault α := do
  p.need (start + layout.size)
  return layout.read p start

/-- The values behind their number. -/
def counted {α : Type} (layout : Layout α) (p : Bytes) (start : Nat) :
    Except Fault (List α) := do
  p.need (start + 4)
  let count := p.u32At start
  p.need (start + 4 + layout.size * count)
  return layout.list p (start + 4) count

/-- The brush that the field at the start of a payload names. -/
def brushRef (f : Flags) (p : Bytes) : BrushRef :=
  if f.solid then .color (.ofArgb (p.u32At 0)) else .object (p.u32At 0 % 0x100)

def matrixAt (p : Bytes) (start : Nat) : Affine Float :=
  ⟨floatAt p start, floatAt p (start + 4), floatAt p (start + 8), floatAt p (start + 12),
    floatAt p (start + 16), floatAt p (start + 20)⟩

/-- The colour that stands for a stored brush: that of a solid brush, the
foreground of a hatch, the start of a linear gradient, and black for all
others. -/
def storedBrushColor (p : Bytes) (start : Nat) : Except Fault Color := do
  p.need (start + 12)
  match p.u32At (start + 4) with
  | 0 => return .ofArgb (p.u32At (start + 8))
  | 1 =>
    p.need (start + 16)
    return .ofArgb (p.u32At (start + 12))
  | 4 =>
    p.need (start + 36)
    return .ofArgb (p.u32At (start + 32))
  | _ => return .black

/-- An optional field of a stored pen. -/
inductive PenField where
  | fixed (size : Nat)
  /-- A count and that many four-byte values. -/
  | counted
  /-- A size and that many bytes. -/
  | sized
deriving Repr, DecidableEq

namespace PenField

/-- The optional fields in the order in which they are stored. Bit `i` of the pen
flags says whether field `i` is there. -/
def all : List PenField :=
  [.fixed 24, .fixed 4, .fixed 4, .fixed 4, .fixed 4, .fixed 4, .fixed 4, .fixed 4, .counted,
    .fixed 4, .counted, .sized, .sized]

/-- Where a field ends that starts at the given place. -/
def stop (p : Bytes) (start : Nat) : PenField → Nat
  | fixed size => start + size
  | counted => start + 4 + 4 * p.u32At start
  | sized => start + 4 + p.u32At start

end PenField

/-- Where the optional fields of a pen end. -/
def penDataStop (p : Bytes) (penFlags start : Nat) : Nat :=
  PenField.all.zipIdx.foldl
    (fun place (field, bit) => if penFlags.testBit bit then field.stop p place else place) start

/-- A stored pen: its fixed fields, the optional ones, and a brush. -/
def storedPen (p : Bytes) : Except Fault Gdi.Pen := do
  p.need 20
  let brush := penDataStop p (p.u32At 8) 20
  if p.size ≤ brush then throw .noRoomForBrush
  return ⟨0, floatAt p 16, ← storedBrushColor p brush⟩

/-- The object that a record stores. Only brushes and pens are understood. -/
def storedObject (f : Flags) (p : Bytes) : Except Fault Gdi.Object := do
  match f.objectType with
  | 1 => return .brush ⟨0, ← storedBrushColor p 0, 0⟩
  | 2 => return .pen (← storedPen p)
  | _ => return .placeholder .plusObject

/-- Text behind brush, format, length and box. Only the corner of the box
matters. -/
def drawString (f : Flags) (p : Bytes) : Except Fault (List Action) := do
  p.need 28
  let length := p.u32At 8
  if p.size < 28 + 2 * length then throw (.textPastPayload length)
  let text := Text.ofUtf16 (p.slice 28 (2 * length))
  if text.isEmpty then return []
  return [.fillWith (brushRef f p), .text text ⟨floatAt p 12, floatAt p 16⟩]

/-- What a record of a known kind asks for. Records that draw with a pen set its
style before they read their shape, and this happens even if the shape cannot
be read. Kinds that are not named here have no effect on the drawing. -/
def actions (kind : Kind) (f : Flags) (p : Bytes) : Reading Action :=
  match kind with
  | .header => .ofExcept do p.need 16; return []
  | .object => .ofExcept do return [.define f.handle (← storedObject f p)]
  | .clear => .ofExcept do p.need 4; return [.clear (.ofArgb (p.u32At 0))]
  | .fillRects => .ofExcept do
    p.need 8
    return [.fillWith (brushRef f p), .fillBoxes (← counted (boxLayout f.compressed) p 4)]
  | .drawRects =>
    .needing p 4 <| .after [.strokeWith f.handle] <| .ofExcept do
      return [.strokeBoxes (← counted (boxLayout f.compressed) p 0)]
  | .fillPolygon => .ofExcept do
    p.need 8
    let points ← counted (pointLayout f.compressed) p 4
    return [.fillWith (brushRef f p), .strokeWithNothing, .polygon points]
  | .drawLines =>
    .needing p 4 <| .after [.strokeWith f.handle] <| .ofExcept do
      let points ← counted (pointLayout f.compressed) p 0
      return [.polyline (if f.closed then points ++ points.head?.toList else points)]
  | .fillEllipse => .ofExcept do
    p.need 4
    let box ← single (boxLayout f.compressed) p 4
    return [.fillWith (brushRef f p), .strokeWithNothing, .ellipse box]
  | .drawEllipse =>
    .after [.strokeWith f.handle, .fillWithNothing] <| .ofExcept do
      return [.ellipse (← single (boxLayout f.compressed) p 0)]
  | .drawString => .ofExcept (drawString f p)
  | .save => .ofExcept do p.need 4; return [.save (p.u32At 0)]
  | .restore => .ofExcept do p.need 4; return [.restore (p.u32At 0)]
  | .setWorldTransform => .ofExcept do p.need 24; return [.setTransform (matrixAt p 0)]
  | .resetWorldTransform => .ofExcept (.ok [.setTransform .identity])
  | .multiplyWorldTransform => .ofExcept do
    p.need 24
    return [.multiply (matrixAt p 0) f.append]
  | .translateWorldTransform => .ofExcept do
    p.need 8
    return [.multiply (.shift (floatAt p 0) (floatAt p 4)) f.append]
  | .scaleWorldTransform => .ofExcept do
    p.need 8
    return [.multiply (.scale (floatAt p 0) (floatAt p 4)) f.append]
  | .rotateWorldTransform => .ofExcept do
    p.need 4
    return [.multiply (.rotation (floatAt p 0)) f.append]
  | _ => .ofExcept (.ok [])

/-- What a record asks for. Only the low 16 bits of its opcode name its kind. -/
def reading (r : Record) : Reading Action :=
  match Kind.ofCode? (r.opcode % 0x10000) with
  | none => .unhandled
  | some kind => actions kind ⟨r.flags⟩ r.payload

end Metafile.Plus
