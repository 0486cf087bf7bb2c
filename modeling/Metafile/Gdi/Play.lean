import Metafile.Player

/-! The steps of WMF and EMF records. Each of them reads from the player what it needs at the
moment, changes the session and draws, one thing behind the other. -/

namespace Metafile.Gdi.Play

open Metafile.Play

variable {ω : Type} [Surface ω]

def session : Play ω Session := return (← get).gdi

def change (f : Session → Session) : Play ω Unit :=
  modify fun player => { player with gdi := f player.gdi }

def remap (change : CoordinateMap.Change) : Play ω Unit :=
  Play.change fun s => { s with map := s.map.change change }

def setAttribute (value : Attribute) : Play ω Unit :=
  change fun s => { s with dc := s.dc.set value }

def create (object : Object) : Play ω Unit :=
  change fun s => { s with objects := s.objects.create object }

/-- Stores an object at a handle that is named in the file. -/
def put (handle : Nat) (object : Object) : Play ω Unit := do
  let limit := (← get).handleLimit
  if limit ≤ handle then throw (.handleOutside handle limit)
  change fun s => { s with objects := s.objects.put handle object }

def delete (handle : Nat) : Play ω Unit :=
  change fun s => { s with objects := s.objects.delete handle }

def select (handle : Nat) : Play ω Unit :=
  change fun s => { s with dc := s.dc.select (s.objects.resolve? handle) }

def saveContext : Play ω Unit := do
  change fun s => { s with saved := ⟨s.dc, s.map⟩ :: s.saved }
  call .saveState

/-- Brings the newest saved context back. -/
def restoreNewest : Play ω Unit := do
  match (← session).saved with
  | [] => return
  | context :: older =>
    change fun s => { s with dc := context.dc, map := context.map, saved := older }
    call .restoreState

/-- Brings back one saved context after the other, so many in all. -/
def restoreTimes : Nat → Play ω Unit
  | 0 => return
  | count + 1 => do
    restoreNewest
    restoreTimes count

/-- A negative level counts back from the newest context and a positive one from the oldest. -/
def restoreContext (level : Int) : Play ω Unit := do
  let depth := (← session).saved.length
  if level = 0 then return
  let target := if level < 0 then depth + level else level - 1
  if target < 0 ∨ depth ≤ target then return
  restoreTimes (depth - target.toNat)

/-- Sets the style of the pen, and tells whether anything is to be drawn with it. -/
def applyPen : Play ω Bool := do
  let s ← session
  if s.dc.pen.isNull then
    call (.setStrokeColor .transparent)
    return false
  let width := (s.map.scaleLength s.dc.pen.width).abs
  call (.setStrokeColor s.dc.pen.color)
  call (.setLineWidth (visibleWidth width))
  return true

/-- Sets the style of the brush, and tells whether anything is to be painted with it. -/
def applyBrush : Play ω Bool := do
  let s ← session
  if s.dc.brush.isNull then
    call (.setFillColor .transparent)
    return false
  call (.setFillColor s.dc.brush.color)
  return true

def pushFigure (figure : Figure) : Play ω Unit :=
  change fun s => s.record fun path => path.push figure

def moveTo (point : Point Float) : Play ω Unit := do
  change fun s => s.moveTo point
  let s ← session
  if s.isRecording then pushFigure [s.place point] else call (.moveTo (s.place point))

/-- A line from the current position. Outside a path it is stroked at once. -/
def lineTo (point : Point Float) : Play ω Unit := do
  let start := (← session).dc.position
  change fun s => s.moveTo point
  let s ← session
  if s.isRecording then
    change fun s => s.record fun path => path.extend (s.place start) [s.place point]
  else
    let _ ← applyPen
    call (.moveTo (s.place start))
    call (.lineTo (s.place point))
    call .strokePath

def rectangle (corner opposite : Point Float) : Play ω Unit := do
  let s ← session
  let box := Box.between (s.place corner) (s.place opposite)
  if s.isRecording then pushFigure (Session.boxFigure box)
  else
    if ← applyBrush then call (.fillRect box)
    if ← applyPen then call (.strokeRect box)

def ellipse (corner opposite : Point Float) : Play ω Unit := do
  let s ← session
  let outline := Ellipse.between (s.place corner) (s.place opposite)
  if s.isRecording then pushFigure outline
  else
    let _ ← applyBrush
    let _ ← applyPen
    call (.polygon outline)

/-- A pixel goes to the surface even if a path is recording. -/
def setPixel (point : Point Float) (color : Color) : Play ω Unit := do
  let corner := (← session).place point
  call (.setFillColor color)
  call (.fillRect ⟨corner.x, corner.y, 1, 1⟩)

def polyline (points : List (Point Float)) : Play ω Unit := do
  let s ← session
  if points.isEmpty then return
  if s.isRecording then pushFigure (points.map s.place)
  else if ← applyPen then call (.polyline (points.map s.place))

def polygon (points : List (Point Float)) : Play ω Unit := do
  let s ← session
  match points.map s.place with
  | [] => return
  | first :: rest =>
    if s.isRecording then pushFigure (first :: rest ++ [first])
    else
      let _ ← applyBrush
      let _ ← applyPen
      call (.polygon (first :: rest))

/-- Lines from the current position through points, the last of which is the next position. -/
def polylineTo (points : List (Point Float)) : Play ω Unit := do
  match points.getLast? with
  | none => return
  | some last =>
    let start := (← session).dc.position
    change fun s => s.moveTo last
    let s ← session
    if s.isRecording then
      change fun s => s.record fun path => path.extend (s.place start) (points.map s.place)
    else if ← applyPen then call (.polyline ((start :: points).map s.place))

/-- Sets the selected font, if there is one. -/
def applyFont : Play ω Unit := do
  let s ← session
  match s.dc.font with
  | none => return
  | some font =>
    let size := (s.map.scaleLength (Float.ofInt font.height)).abs
    call (.setFont font.face (if 0 < size then size else Session.standardTextSize))

/-- Text in the text colour and the selected font. -/
def text (text : String) (point : Point Float) : Play ω Unit := do
  if text.isEmpty then return
  applyFont
  let s ← session
  call (.setFillColor s.dc.textColor)
  call (.drawText text (s.place point))

/-- Text at its reference point, or at the current position if the alignment says so. -/
def alignedText (content : String) (reference : Point Float) : Play ω Unit := do
  let s ← session
  if s.dc.textFromPosition then text content s.dc.position else text content reference

def setPath (f : Option Path → Option Path) : Play ω Unit :=
  change fun s => { s with path := f s.path }

/-- Takes the path away and draws its figures. -/
def renderPath (render : Path → Play ω Unit) : Play ω Unit := do
  let path? := (← session).path
  setPath fun _ => none
  match path? with
  | none => return
  | some path => render path

def strokePath : Play ω Unit :=
  renderPath fun path => do
    if ← applyPen then (path.rendered 2).forM fun figure => call (.polyline figure)

def fillPath : Play ω Unit :=
  renderPath fun path => do
    let _ ← applyBrush
    call (.setStrokeColor .transparent)
    (path.rendered 3).forM fun figure => call (.polygon figure)

def strokeAndFillPath : Play ω Unit :=
  renderPath fun path => do
    let _ ← applyBrush
    let _ ← applyPen
    (path.rendered 2).forM fun figure => call (.polygon figure)

end Metafile.Gdi.Play
