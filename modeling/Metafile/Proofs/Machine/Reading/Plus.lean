import Metafile.Plus.Reading
import Metafile.Proofs.Bytes.Part
import Metafile.Proofs.Machine.Reading
import Metafile.Proofs.Machine.Stream

/-! Reading EMF+ records on the machine. A reader goes along the payload, and what is required
of the size counts from where it stands. -/

namespace Metafile.Machine.Plus

open Word Metafile.Plus

variable {α : Type}

/-- One value, with the reader behind it. -/
def single (l : Layout α) (r : Reader) : Run (α × Reader) := do
  r.data.need (← add r.position l.size)
  return (l.read r.data r.position, r.skip l.size)

/-- Values one behind the other, whose size is required of each of them anew. -/
def singles (l : Layout α) : (count : Nat) → Reader → Run (List α)
  | 0, _ => return []
  | count + 1, r => do
    let (value, r) ← single l r
    return value :: (← singles l count r)

/-- Values one behind the other, without a look at the size. -/
def block (l : Layout α) (count : Nat) (r : Reader) : Run (List α) :=
  return l.list r.data r.position count

/-- The values behind their number, which are read in the given way. -/
def counted (l : Layout α) (values : (count : Nat) → Reader → Run (List α)) (r : Reader) :
    Run (List α) := do
  r.data.need (← add r.position 4)
  let (count, r) := r.u32
  r.data.need (← add (← mul count l.size) r.position)
  values count r

def storedBrushColor (r : Reader) : Run Color := do
  let start := r.position
  r.data.need (← add start 12)
  let (_, r) := r.u32
  let (brushType, r) := r.u32
  if brushType = 0 then return .ofArgb r.u32.1
  else if brushType = 1 then
    r.data.need (← add start 16)
    return .ofArgb (r.skip 4).u32.1
  else if brushType = 4 then
    r.data.need (← add start 36)
    return .ofArgb (r.skip 24).u32.1
  else return .black

/-- A reader behind an optional field of a pen. -/
def skipField (r : Reader) : PenField → Reader
  | .fixed size => r.skip size
  | .counted =>
    let (count, r) := r.u32
    r.skip (mulSaturating count 4)
  | .sized =>
    let (size, r) := r.u32
    r.skip size

def skipPenData (penFlags : Nat) (r : Reader) : Reader :=
  PenField.all.zipIdx.foldl
    (fun r (field, bit) => if penFlags.testBit bit then skipField r field else r) r

def storedPen (p : Bytes) : Run Gdi.Pen := do
  p.need 20
  let r := skipPenData (p.u32At 8) (Reader.skip ⟨p, 0⟩ 20)
  if (← r.remaining) = 0 then throw .noRoomForBrush
  return ⟨0, floatAt p 16, ← storedBrushColor r⟩

def storedObject (f : Flags) (p : Bytes) : Run Gdi.Object := do
  if f.objectType = 1 then return .brush ⟨0, ← storedBrushColor ⟨p, 0⟩, 0⟩
  else if f.objectType = 2 then return .pen (← storedPen p)
  else return .placeholder .plusObject

def drawString (f : Flags) (p : Bytes) : Run (List Action) := do
  p.need 28
  let length := p.u32At 8
  let stop ← add 28 (← mul length 2)
  if p.size < stop then throw (.textPastPayload length)
  let text ← Text.ofUtf16 (← slice p 28 stop)
  if text.isEmpty then return []
  return [.fillWith (brushRef f p), .text text ⟨floatAt p 12, floatAt p 16⟩]

/-- The rest of a record is only looked at if its payload has the required size. -/
def needing (p : Bytes) (required : Nat) (rest : Option (Reading α)) : Option (Reading α) :=
  match p.need required with
  | .ok () => rest
  | .error fault => some ⟨[], .failed fault⟩

def actions (kind : Kind) (f : Flags) (p : Bytes) : Option (Reading Action) :=
  match kind with
  | .object => Run.reading do return [.define f.handle (← storedObject f p)]
  | .fillRects => Run.reading do
    p.need 8
    let l := boxLayout f.compressed
    return [.fillWith (brushRef f p), .fillBoxes (← counted l (singles l) (Reader.skip ⟨p, 0⟩ 4))]
  | .drawRects => needing p 4 <| Option.map (.after [.strokeWith f.handle]) <| Run.reading do
    let l := boxLayout f.compressed
    return [.strokeBoxes (← counted l (singles l) ⟨p, 0⟩)]
  | .fillPolygon => Run.reading do
    p.need 8
    let l := pointLayout f.compressed
    let points ← counted l (block l) (Reader.skip ⟨p, 0⟩ 4)
    return [.fillWith (brushRef f p), .strokeWithNothing, .polygon points]
  | .drawLines => needing p 4 <| Option.map (.after [.strokeWith f.handle]) <| Run.reading do
    let l := pointLayout f.compressed
    let points ← counted l (block l) ⟨p, 0⟩
    return [.polyline (if f.closed then points ++ points.head?.toList else points)]
  | .fillEllipse => Run.reading do
    p.need 4
    let (box, _) ← single (boxLayout f.compressed) (Reader.skip ⟨p, 0⟩ 4)
    return [.fillWith (brushRef f p), .strokeWithNothing, .ellipse box]
  | .drawEllipse =>
    Option.map (.after [.strokeWith f.handle, .fillWithNothing]) <| Run.reading do
      let (box, _) ← single (boxLayout f.compressed) ⟨p, 0⟩
      return [.ellipse box]
  | .drawString => (drawString f p).reading
  | _ => some (Metafile.Plus.actions kind f p)

def reading (r : Record) : Option (Reading Action) :=
  match Kind.ofCode? (r.opcode % 0x10000) with
  | none => some .unhandled
  | some kind => actions kind ⟨r.flags⟩ r.payload

section

variable {β : Type} {p : Bytes} {l : Layout α}

/-- A value is read behind a check for its size. What follows may not depend on where the reader
stands behind it. -/
theorem single_agrees {start : Nat} (hFits : start + l.size < 2 ^ 64)
    {rest : α × Reader → Run β} {goOn : α → Except Fault β}
    (hRest : ∀ r, Agrees (rest (l.read p start, r)) (goOn (l.read p start))) :
    Agrees (single l ⟨p, start⟩ >>= rest) (Metafile.Plus.single l p start >>= goOn) := by
  simp only [single, Metafile.Plus.single, bind_assoc, pure_bind]
  exact .word (add_eq hFits) (.need fun _ => hRest _)

/-- Values are read one by one. The induction is on their number, with the start moved behind
each of them. -/
theorem singles_agrees (hSize : p.size < 2 ^ 63) {start count : Nat}
    (hRoom : start + l.size * count ≤ p.size) :
    Agrees (singles l count ⟨p, start⟩) (pure (l.list p start count)) := by
  induction count generalizing start with
  | zero => exact agrees_pure _
  | succ count ih =>
      rw [Nat.mul_succ] at hRoom
      have hFirst : start + l.size ≤ p.size := by omega
      simp only [singles, single, bind_assoc, pure_bind, Reader.skip_of_fits hSize hFirst]
      rw [Layout.list_succ]
      refine .word (add_eq (by omega)) (.room hFirst ?_)
      exact (ih (by omega)).bind fun _ _ => agrees_pure _

theorem block_agrees {start count : Nat} :
    Agrees (block l count ⟨p, start⟩) (pure (l.list p start count)) := agrees_pure _

/-- The room for all values is checked before any of them is read. Their number is a field of 32
bits and their size is small, so that this room is a word. -/
theorem counted_agrees (hSize : p.size < 2 ^ 63) (hSmall : l.size ≤ 16) {start : Nat}
    (hStart : start ≤ 4) {values : Nat → Reader → Run (List α)}
    (hValues : ∀ count, start + 4 + l.size * count ≤ p.size →
      Agrees (values count ⟨p, start + 4⟩) (pure (l.list p (start + 4) count))) :
    Agrees (counted l values ⟨p, start⟩) (Metafile.Plus.counted l p start) := by
  refine .word (add_eq (show start + 4 < 2 ^ 64 by omega)) (.need fun hRoom => ?_)
  have hCount : p.u32At start < 256 ^ 4 := Bytes.field_lt ..
  have hBytes : p.u32At start * l.size ≤ p.u32At start * 16 := Nat.mul_le_mul_left _ hSmall
  rw [Reader.u32_eq hSize hRoom]
  dsimp only
  refine .word (mul_eq (by omega)) (.word (add_eq (by omega)) ?_)
  rw [Nat.add_comm (_ * _), Nat.mul_comm]
  exact .need fun hAll => hValues _ hAll

/-- Where the colour of a brush ends depends on its type, which is read first. -/
theorem storedBrushColor_agrees (hSize : p.size < 2 ^ 63) {start : Nat} (hStart : start ≤ p.size) :
    Agrees (storedBrushColor ⟨p, start⟩) (Metafile.Plus.storedBrushColor p start) := by
  refine .word (add_eq (show start + 12 < 2 ^ 64 by omega)) (.need fun hRoom => ?_)
  have hFixed : start + 12 ≤ p.size := hRoom
  rw [Reader.u32_eq hSize (by omega)]
  dsimp only
  rw [Reader.u32_eq hSize (by omega)]
  dsimp only
  by_cases hSolid : p.u32At (start + 4) = 0
  · rw [if_pos hSolid, hSolid]
    exact agrees_pure _
  by_cases hHatch : p.u32At (start + 4) = 1
  · rw [if_neg hSolid, if_pos hHatch, hHatch]
    refine .word (add_eq (by omega)) (.need fun hMore => ?_)
    rw [Reader.skip_of_fits hSize (by omega)]
    exact agrees_pure _
  by_cases hGradient : p.u32At (start + 4) = 4
  · rw [if_neg hSolid, if_neg hHatch, if_pos hGradient, hGradient]
    refine .word (add_eq (by omega)) (.need fun hMore => ?_)
    rw [Reader.skip_of_fits hSize (by omega)]
    exact agrees_pure _
  · rw [if_neg hSolid, if_neg hHatch, if_neg hGradient]
    split <;> first | contradiction | exact agrees_pure _

/-- A field that is cut off moves the reader to the end, and so does all that follows. -/
theorem skipField_eq (hSize : p.size < 2 ^ 63) (start : Nat) (field : PenField) :
    skipField ⟨p, min start p.size⟩ field = ⟨p, min (field.stop p start) p.size⟩ := by
  have hRead : p.u32At (min start p.size) = p.u32At start := by
    rcases Nat.le_total start p.size with hInside | hPast
    · rw [Nat.min_eq_left hInside]
    · rw [Nat.min_eq_right hPast, Bytes.u32At, Bytes.u32At, Bytes.field_eq_zero (by omega),
        Bytes.field_eq_zero (by omega)]
  have hLength : p.u32At start < 256 ^ 4 := Bytes.field_lt ..
  cases field with
  | fixed size =>
      simp only [skipField, PenField.stop, Reader.skip_eq hSize]
      congr 1
      omega
  | counted =>
      simp only [skipField, PenField.stop, Reader.u32, hRead, Reader.skip_eq hSize,
        mulSaturating_eq (show p.u32At start * 4 < 2 ^ 64 by omega)]
      congr 1
      omega
  | sized =>
      simp only [skipField, PenField.stop, Reader.u32, hRead, Reader.skip_eq hSize]
      congr 1
      omega

/-- Fields of a pen may lead behind the end of the payload. The reader stays at the end then, as
does the place that is computed, up to the size. -/
theorem skipPenData_eq (hSize : p.size < 2 ^ 63) (penFlags start : Nat) :
    skipPenData penFlags ⟨p, min start p.size⟩ =
      ⟨p, min (penDataStop p penFlags start) p.size⟩ := by
  unfold skipPenData penDataStop
  induction PenField.all.zipIdx generalizing start with
  | nil => rfl
  | cons entry entries ih =>
      rw [List.foldl_cons, List.foldl_cons]
      dsimp only
      split
      case isTrue => rw [skipField_eq hSize, ih]
      case isFalse => exact ih start

/-- A pen with any optional data is read without stopping. -/
theorem storedPen_agrees (hSize : p.size < 2 ^ 63) :
    Agrees (storedPen p) (Metafile.Plus.storedPen p) := by
  refine .need fun hRoom => ?_
  have hStart : Reader.skip ⟨p, 0⟩ 20 = ⟨p, min 20 p.size⟩ := Reader.skip_eq hSize
  have hLeft := Reader.remaining_eq (Nat.min_le_right (penDataStop p (p.u32At 8) 20) p.size)
  dsimp only
  rw [hStart, skipPenData_eq hSize]
  refine .word hLeft ?_
  by_cases hInside : p.size ≤ penDataStop p (p.u32At 8) 20
  · rw [if_pos (by omega), if_pos hInside]
    exact agrees_throw _
  · rw [if_neg (by omega), if_neg hInside, Nat.min_eq_left (by omega)]
    exact (storedBrushColor_agrees hSize (by omega)).bind fun _ _ => agrees_pure _

theorem storedObject_agrees (hSize : p.size < 2 ^ 63) (f : Flags) :
    Agrees (storedObject f p) (Metafile.Plus.storedObject f p) := by
  unfold storedObject Metafile.Plus.storedObject
  by_cases hBrush : f.objectType = 1
  · rw [if_pos hBrush, hBrush]
    exact (storedBrushColor_agrees hSize (Nat.zero_le _)).bind fun _ _ => agrees_pure _
  by_cases hPen : f.objectType = 2
  · rw [if_neg hBrush, if_pos hPen, hPen]
    exact (storedPen_agrees hSize).bind fun _ _ => agrees_pure _
  · rw [if_neg hBrush, if_neg hPen]
    split <;> first | contradiction | exact agrees_pure _

theorem drawString_agrees (f : Flags) : Agrees (drawString f p) (Metafile.Plus.drawString f p) := by
  refine .need fun _ => ?_
  have hLength : p.u32At 8 < 256 ^ 4 := Bytes.field_lt ..
  refine .word (mul_eq (by omega)) (.word (add_eq (by omega)) ?_)
  rw [Nat.mul_comm]
  dsimp only
  split
  case isTrue => exact agrees_throw _
  case isFalse hInside =>
    refine .word (slice_eq (by omega) (Nat.not_lt.1 hInside)) (.word (Text.ofUtf16_eq _) ?_)
    dsimp only [Bytes.slice]
    exact .ite (agrees_pure _) (agrees_pure _)

theorem needing_eq {required : Nat} {run : Option (Reading α)} {rest : Reading α}
    (hRest : run = some rest) : needing p required run = some (.needing p required rest) := by
  subst hRest
  unfold needing Reading.needing
  cases p.need required <;> rfl

/-- Records of every kind are read without stopping, with any flags. The kinds that ask for
something early are read behind the check that comes first. -/
theorem actions_eq (hSize : p.size < 2 ^ 63) (kind : Kind) (f : Flags) :
    actions kind f p = some (Metafile.Plus.actions kind f p) := by
  have hBox : (boxLayout f.compressed).size ≤ 16 := by
    unfold boxLayout
    split <;> decide
  have hPoint : (pointLayout f.compressed).size ≤ 16 := by
    unfold pointLayout
    split <;> decide
  have hBoxes {start : Nat} (hStart : start ≤ 4) :=
    counted_agrees hSize hBox hStart fun _ hRoom => singles_agrees hSize hRoom
  have hPoints {start : Nat} (hStart : start ≤ 4) :=
    counted_agrees hSize hPoint hStart fun _ _ => block_agrees
  have hBehind (hRoom : 4 ≤ p.size) : Reader.skip ⟨p, 0⟩ 4 = ⟨p, 4⟩ :=
    Reader.skip_of_fits hSize hRoom
  cases kind with
  | object =>
      exact Agrees.reading_eq ((storedObject_agrees hSize f).bind fun _ _ => agrees_pure _)
  | fillRects =>
      refine Agrees.reading_eq (.need fun hRoom => ?_)
      rw [hBehind (by omega)]
      exact (hBoxes (Nat.le_refl 4)).bind fun _ _ => agrees_pure _
  | drawRects =>
      refine needing_eq (congrArg (Option.map _) (Agrees.reading_eq ?_))
      exact (hBoxes (Nat.zero_le 4)).bind fun _ _ => agrees_pure _
  | fillPolygon =>
      refine Agrees.reading_eq (.need fun hRoom => ?_)
      rw [hBehind (by omega)]
      exact (hPoints (Nat.le_refl 4)).bind fun _ _ => agrees_pure _
  | drawLines =>
      refine needing_eq (congrArg (Option.map _) (Agrees.reading_eq ?_))
      exact (hPoints (Nat.zero_le 4)).bind fun _ _ => agrees_pure _
  | fillEllipse =>
      refine Agrees.reading_eq (.need fun hRoom => ?_)
      rw [hBehind hRoom]
      exact single_agrees (by omega) fun _ => agrees_pure _
  | drawEllipse =>
      refine congrArg (Option.map _) (Agrees.reading_eq ?_)
      exact single_agrees (by omega) fun _ => agrees_pure _
  | drawString => exact (drawString_agrees f).reading_eq
  | _ => rfl

/-- So the machine reads every record of EMF+ as it is to be read. -/
theorem reading_eq {r : Record} (hSize : r.payload.size < 2 ^ 63) :
    reading r = some (Metafile.Plus.reading r) := by
  unfold reading Metafile.Plus.reading
  cases Kind.ofCode? (r.opcode % 0x10000) with
  | none => rfl
  | some kind => exact actions_eq hSize kind _

end

end Metafile.Machine.Plus
