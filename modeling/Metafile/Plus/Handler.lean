import Metafile.Player
import Metafile.Plus.Reading

/-! What a player does with EMF+ records, step by step. Some of them set the style of the pen
before they know whether their shape can be read. -/

namespace Metafile.Plus

namespace Play

open Metafile.Play

variable {ω : Type} [Surface ω]

def session : Play ω Session := return (← get).plus

def change (f : Session → Session) : Play ω Unit :=
  modify fun player => { player with plus := f player.plus }

def define (handle : Nat) (object : Gdi.Object) : Play ω Unit :=
  change fun s => { s with objects := s.objects.put handle object }

/-- Sets the style of a pen, or of thin black lines if there is no such pen. -/
def applyPen (handle : Nat) : Play ω Unit := do
  let (color, width) :=
    match (← session).objects.select? handle with
    | some (.pen pen) => (pen.color, pen.width)
    | _ => (.black, 1)
  call (.setStrokeColor color)
  call (.setLineWidth (visibleWidth width))

def brushColor (brush : BrushRef) : Play ω Color := return (← session).brushColor brush

/-- The box on the surface between the images of two opposite corners. -/
def placeBox (box : Box) : Play ω Box := do
  let s ← session
  return .between (s.place ⟨box.x, box.y⟩) (s.place ⟨box.x + box.width, box.y + box.height⟩)

def ellipse (box : Box) : Play ω Unit := do
  let s ← session
  let corner := s.place ⟨box.x, box.y⟩
  let opposite := s.place ⟨box.x + box.width, box.y + box.height⟩
  call (.polygon (Ellipse.between corner opposite))

def save (index : Nat) : Play ω Unit := do
  change fun s => { s with saved := ⟨index, s.transform⟩ :: s.saved }
  call .saveState

/-- Brings the newest saved transform back. -/
def restoreNewest : Play ω Unit := do
  match (← session).saved with
  | [] => return
  | entry :: older =>
    change fun s => { s with transform := entry.transform, saved := older }
    call .restoreState

/-- Brings back one saved transform after the other, so many in all. -/
def restoreTimes : Nat → Play ω Unit
  | 0 => return
  | count + 1 => do
    restoreNewest
    restoreTimes count

/-- Back to the newest transform that was saved under the index. -/
def restore (index : Nat) : Play ω Unit := do
  match (← session).saved.findIdx? fun entry => entry.index == index with
  | none => return
  | some newer => restoreTimes (newer + 1)

def setTransform (transform : Affine Float) : Play ω Unit :=
  change fun s => { s with transform }

/-- Combines the transform with a matrix, which acts after it if it is appended. -/
def multiply (matrix : Affine Float) (append : Bool) : Play ω Unit :=
  change fun s =>
    { s with
      transform := if append then s.transform.andThen matrix else matrix.andThen s.transform }

end Play

open Metafile.Play Plus.Play

variable {ω : Type} [Surface ω]

/-- Carries a record of a known kind out. -/
def carryOut (kind : Kind) (f : Flags) (p : Bytes) : Play ω Unit := do
  match kind with
  | .header => need p 16
  | .object => define f.handle (← ofExcept (storedObject f p))
  | .clear =>
    need p 4
    call (.fillBackground (.ofArgb (p.u32At 0)))
  | .fillRects =>
    need p 8
    let color ← brushColor (brushRef f p)
    let boxes ← ofExcept (counted (boxLayout f.compressed) p 4)
    call (.setFillColor color)
    boxes.forM fun box => do call (.fillRect (← placeBox box))
  | .drawRects =>
    need p 4
    applyPen f.handle
    let boxes ← ofExcept (counted (boxLayout f.compressed) p 0)
    boxes.forM fun box => do call (.strokeRect (← placeBox box))
  | .fillPolygon =>
    need p 8
    let color ← brushColor (brushRef f p)
    let points ← ofExcept (counted (pointLayout f.compressed) p 4)
    let places := points.map (← session).place
    call (.setFillColor color)
    call (.setStrokeColor .transparent)
    call (.polygon places)
  | .drawLines =>
    need p 4
    applyPen f.handle
    let points ← ofExcept (counted (pointLayout f.compressed) p 0)
    let places := points.map (← session).place
    call (.polyline (if f.closed then places ++ places.head?.toList else places))
  | .fillEllipse =>
    need p 4
    let color ← brushColor (brushRef f p)
    let box ← ofExcept (single (boxLayout f.compressed) p 4)
    call (.setFillColor color)
    call (.setStrokeColor .transparent)
    ellipse box
  | .drawEllipse =>
    applyPen f.handle
    call (.setFillColor .transparent)
    ellipse (← ofExcept (single (boxLayout f.compressed) p 0))
  | .drawString =>
    need p 28
    let color ← brushColor (brushRef f p)
    let length := p.u32At 8
    let point : Point Float := ⟨floatAt p 12, floatAt p 16⟩
    if p.size < 28 + 2 * length then throw (.textPastPayload length)
    let text := Text.ofUtf16 (p.slice 28 (2 * length))
    if !text.isEmpty then
      let place := (← session).place point
      call (.setFillColor color)
      call (.drawText text place)
  | .save =>
    need p 4
    save (p.u32At 0)
  | .restore =>
    need p 4
    restore (p.u32At 0)
  | .setWorldTransform =>
    need p 24
    setTransform (matrixAt p 0)
  | .resetWorldTransform => setTransform .identity
  | .multiplyWorldTransform =>
    need p 24
    multiply (matrixAt p 0) f.append
  | .translateWorldTransform =>
    need p 8
    multiply (.shift (floatAt p 0) (floatAt p 4)) f.append
  | .scaleWorldTransform =>
    need p 8
    multiply (.scale (floatAt p 0) (floatAt p 4)) f.append
  | .rotateWorldTransform =>
    need p 4
    multiply (.rotation (floatAt p 0)) f.append
  | .endOfFile | .comment | .getDc | .multiFormatStart | .multiFormatSection | .multiFormatEnd
  | .fillPie | .drawPie | .drawArc | .fillRegion | .fillPath | .drawPath | .fillClosedCurve
  | .drawClosedCurve | .drawCurve | .drawBeziers | .drawImage | .drawImagePoints
  | .setRenderingOrigin | .setAntiAliasMode | .setTextRenderingHint | .setTextContrast
  | .setInterpolationMode | .setPixelOffsetMode | .setCompositingMode | .setCompositingQuality
  | .beginContainer | .beginContainerNoParams | .endContainer | .setPageTransform | .resetClip
  | .setClipRect | .setClipPath | .setClipRegion | .offsetClip | .drawDriverString
  | .strokeFillPath | .serializableObject | .setTsGraphics | .setTsClip => return

/-- Carries a record out and tells whether it has a kind. -/
def handle (r : Record) : Play ω Bool := do
  match Kind.ofCode? (r.opcode % 0x10000) with
  | none => return false
  | some kind =>
    carryOut kind ⟨r.flags⟩ r.payload
    return true

end Metafile.Plus
