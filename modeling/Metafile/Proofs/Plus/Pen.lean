import Metafile.Proofs.Bytes.Fields
import Metafile.Proofs.Plus.Effect
import Metafile.Proofs.Plus.Settled

/-! Stored pens. Main statement: a pen with any of the optional fields is put into its slot with
its width and the colour of its brush, and a record that ends before the end of that colour is
refused. -/

namespace Metafile

open Bytes (Field ofFields)

namespace Plus

section

variable {p : Bytes} {start : Nat}

/-- Where the colour of a stored brush ends, counted from the start of the brush. Brushes that
stand for black are no shorter than solid ones. -/
def colorEnd (type : Nat) : Nat :=
  match type with
  | 1 => 16
  | 4 => 36
  | _ => 12

/-- Every brush has its type and its flags in front of the colour. -/
theorem le_colorEnd (type : Nat) : 12 ≤ colorEnd type := by
  unfold colorEnd
  split <;> decide

/-- The colour for the brush at a place, whether or not it lies in the payload. -/
def brushColorAt (p : Bytes) (start : Nat) : Color :=
  match p.u32At (start + 4) with
  | 0 => .ofArgb (p.u32At (start + 8))
  | 1 => .ofArgb (p.u32At (start + 12))
  | 4 => .ofArgb (p.u32At (start + 32))
  | _ => .black

/-- A brush is read just if the payload reaches to the end of its colour, which depends on its
type. -/
theorem storedBrushColor_eq_ok_iff {color : Color} :
    storedBrushColor p start = .ok color ↔
      start + colorEnd (p.u32At (start + 4)) ≤ p.size ∧ brushColorAt p start = color := by
  simp only [storedBrushColor, Bytes.need_bind_eq_ok_iff]
  unfold colorEnd brushColorAt
  generalize p.u32At (start + 4) = type
  split
  case h_1 | h_4 => simp only [pure, Except.pure, Except.ok.injEq]
  case h_2 | h_3 =>
    simp only [Bytes.need_bind_eq_ok_iff, pure, Except.pure, Except.ok.injEq]
    exact ⟨And.right, fun hRest => ⟨by omega, hRest⟩⟩

/-- Where the colour of a stored pen ends. -/
def penEnd (p : Bytes) : Nat :=
  let brush := penDataStop p (p.u32At 8) 20
  brush + colorEnd (p.u32At (brush + 4))

/-- Optional fields only take the end of a pen further back. -/
theorem le_penDataStop (penFlags : Nat) : start ≤ penDataStop p penFlags start :=
  PenField.le_foldl_pass p start penFlags PenField.all.zipIdx

/-- A pen is read just if the payload reaches to the end of the brush behind its optional fields.
The width and the colour are the only values that are kept. -/
theorem storedPen_eq_ok_iff {pen : Gdi.Pen} :
    storedPen p = .ok pen ↔ penEnd p ≤ p.size ∧
      ⟨0, floatAt p 16, brushColorAt p (penDataStop p (p.u32At 8) 20)⟩ = pen := by
  have hBrush : 20 ≤ penDataStop p (p.u32At 8) 20 := le_penDataStop _
  have hLeast := le_colorEnd (p.u32At (penDataStop p (p.u32At 8) 20 + 4))
  simp only [storedPen, Bytes.need_bind_eq_ok_iff, penEnd]
  by_cases hRoom : p.size ≤ penDataStop p (p.u32At 8) 20
  · rw [if_pos hRoom]
    exact ⟨nofun, fun ⟨hSize, _⟩ => by omega⟩
  · rw [if_neg hRoom]
    simp only [bind_eq_ok_iff, storedBrushColor_eq_ok_iff, pure, Except.pure, Except.ok.injEq]
    constructor
    · rintro ⟨-, _, ⟨hSize, rfl⟩, hPen⟩
      exact ⟨hSize, hPen⟩
    · rintro ⟨hSize, hPen⟩
      exact ⟨by omega, _, ⟨hSize, rfl⟩, hPen⟩

/-- A pen whose colour lies in a payload ends at the same place if more bytes follow. -/
theorem penEnd_append (hFits : penEnd p ≤ p.size) (extra : Bytes) :
    penEnd (p ++ extra) = penEnd p := by
  have hBrush : 20 ≤ penDataStop p (p.u32At 8) 20 := le_penDataStop _
  have hLeast := le_colorEnd (p.u32At (penDataStop p (p.u32At 8) 20 + 4))
  unfold penEnd at hFits ⊢
  dsimp only at hFits ⊢
  rw [Bytes.u32At_append extra (by omega), penDataStop_append (by omega) extra,
    Bytes.u32At_append extra (by omega)]

/-- A field as it is stored: its bytes, behind their number if that varies. -/
inductive PenField.Stores : PenField → Bytes → Prop
  | fixed {size : Nat} {content : Bytes} (hSize : content.size = size) :
      Stores (.fixed size) content
  | counted {count : Nat} {values : Bytes} (hCount : count < 2 ^ 32)
      (hSize : values.size = 4 * count) : Stores .counted (ofFields [⟨4, count⟩] ++ values)
  | sized {content : Bytes} (hSize : content.size < 2 ^ 32) :
      Stores .sized (ofFields [⟨4, content.size⟩] ++ content)

/-- How the optional field of a bit is stored: a matrix of six numbers, arrays of dashes and of
compound lines, two caps of any size, and single numbers. -/
def penField : Nat → PenField
  | 0 => .fixed 24
  | 8 | 10 => .counted
  | 11 | 12 => .sized
  | _ => .fixed 4

theorem zipIdx_all : PenField.all.zipIdx = (List.range 13).map fun bit => (penField bit, bit) := by
  decide

/-- The contents of the bits that are set, one behind the other. -/
def penData (penFlags : Nat) (content : Nat → Bytes) : List Nat → Bytes
  | [] => #[]
  | bit :: bits =>
    (if penFlags.testBit bit then content bit else #[]) ++ penData penFlags content bits

/-- A field ends where its content does. Fields of variable length begin with this length. -/
theorem PenField.Stores.stop_eq {field : PenField} {content : Bytes}
    (hStores : field.Stores content) (hPart : p.HasPart start content) :
    field.stop p start = start + content.size := by
  cases hStores with
  | fixed hSize => rw [PenField.stop, hSize]
  | counted hCount hSize =>
      have hWord : p.u32At start = _ :=
        (hPart.left.holdsFields (List.forall_mem_singleton.2 hCount)).1
      rw [PenField.stop, hWord, Array.size_append, hSize, Nat.add_assoc]
      rfl
  | sized hSize =>
      have hWord : p.u32At start = _ :=
        (hPart.left.holdsFields (List.forall_mem_singleton.2 hSize)).1
      rw [PenField.stop, hWord, Array.size_append, Nat.add_assoc]
      rfl

/-- Fields that are present are passed one by one, and those whose bit is not set take no room.
The induction is on the bits, with the start moved behind each field. -/
theorem foldl_pass_of_hasPart {penFlags : Nat} {content : Nat → Bytes} {bits : List Nat}
    (hStores : ∀ bit ∈ bits, penFlags.testBit bit → (penField bit).Stores (content bit))
    (hPart : p.HasPart start (penData penFlags content bits)) :
    (bits.map fun bit => (penField bit, bit)).foldl (PenField.pass p penFlags) start =
      start + (penData penFlags content bits).size := by
  induction bits generalizing start with
  | nil => rfl
  | cons bit bits ih =>
      obtain ⟨hFirst, hRest⟩ := List.forall_mem_cons.1 hStores
      have hPass : PenField.pass p penFlags start (penField bit, bit) =
          start + (if penFlags.testBit bit then content bit else #[]).size := by
        have hHere := hPart.left
        unfold PenField.pass
        by_cases hSet : penFlags.testBit bit
        · rw [if_pos hSet] at hHere ⊢
          rw [if_pos hSet]
          exact (hFirst hSet).stop_eq hHere
        · rw [if_neg hSet, if_neg hSet]
          rfl
      rw [List.map_cons, List.foldl_cons, hPass, ih hRest hPart.right, penData, Array.size_append,
        Nat.add_assoc]

/-- So the optional data end behind their contents, whichever bits are set. -/
theorem penDataStop_of_hasPart {penFlags : Nat} {content : Nat → Bytes}
    (hStores : ∀ bit < 13, penFlags.testBit bit → (penField bit).Stores (content bit))
    (hPart : p.HasPart start (penData penFlags content (List.range 13))) :
    penDataStop p penFlags start = start + (penData penFlags content (List.range 13)).size := by
  have hFold := foldl_pass_of_hasPart (fun bit hMem => hStores bit (List.mem_range.1 hMem)) hPart
  rw [← zipIdx_all] at hFold
  exact hFold

/-- The fields of a stored brush up to the end of its colour, or the first twelve bytes of one that
stands for black. A gradient has its flags, its wrap mode and a box in front of its colours. -/
inductive StoresBrush : List Field → Color → Prop
  | solid (version argb : Nat) :
      StoresBrush [⟨4, version⟩, ⟨4, 0⟩, ⟨4, argb⟩] (.ofArgb argb)
  | hatch (version style argb : Nat) :
      StoresBrush [⟨4, version⟩, ⟨4, 1⟩, ⟨4, style⟩, ⟨4, argb⟩] (.ofArgb argb)
  | linearGradient (version shape argb : Nat) :
      StoresBrush [⟨4, version⟩, ⟨4, 4⟩, ⟨24, shape⟩, ⟨4, argb⟩] (.ofArgb argb)
  | other {type : Nat} (version rest : Nat) (hType : type ≠ 0 ∧ type ≠ 1 ∧ type ≠ 4) :
      StoresBrush [⟨4, version⟩, ⟨4, type⟩, ⟨4, rest⟩] .black

namespace StoresBrush

variable {brush : List Field} {color : Color}

theorem colorEnd_eq (hBrush : StoresBrush brush color) (hFields : p.HoldsFields start brush) :
    colorEnd (p.u32At (start + 4)) = (brush.map Field.width).sum := by
  cases hBrush with
  | solid version argb => rw [show p.u32At (start + 4) = 0 from hFields.2.1]; rfl
  | hatch version style argb => rw [show p.u32At (start + 4) = 1 from hFields.2.1]; rfl
  | linearGradient version shape argb => rw [show p.u32At (start + 4) = 4 from hFields.2.1]; rfl
  | @other type version rest hType =>
      rw [show p.u32At (start + 4) = type from hFields.2.1]
      unfold colorEnd
      split
      · exact absurd rfl hType.2.1
      · exact absurd rfl hType.2.2
      · rfl

theorem brushColorAt_eq (hBrush : StoresBrush brush color) (hFields : p.HoldsFields start brush) :
    brushColorAt p start = color := by
  unfold brushColorAt
  cases hBrush with
  | solid version argb =>
      obtain ⟨-, hType, hColor, -⟩ := hFields
      rw [show p.u32At (start + 4) = 0 from hType]
      exact congrArg Color.ofArgb hColor
  | hatch version style argb =>
      obtain ⟨-, hType, -, hColor, -⟩ := hFields
      rw [show p.u32At (start + 4) = 1 from hType]
      exact congrArg Color.ofArgb hColor
  | linearGradient version shape argb =>
      obtain ⟨-, hType, -, hColor, -⟩ := hFields
      rw [show p.u32At (start + 4) = 4 from hType]
      exact congrArg Color.ofArgb hColor
  | @other type version rest hType =>
      rw [show p.u32At (start + 4) = type from hFields.2.1]
      split
      · exact absurd rfl hType.1
      · exact absurd rfl hType.2.1
      · exact absurd rfl hType.2.2
      · rfl

end StoresBrush

end

/-- A pen as it is stored, with its optional fields and its brush up to the end of its colour. -/
structure StoredPen where
  /-- The version and a word that is not used. -/
  head : Nat
  flags : Nat
  unit : Nat
  /-- The bits of the width. -/
  width : Nat
  /-- The contents of the fields of the bits that are set in the flags. -/
  content : Nat → Bytes
  brush : List Field
  color : Color
  fits : ∀ f ∈ [⟨8, head⟩, ⟨4, flags⟩, ⟨4, unit⟩, ⟨4, width⟩] ++ brush, f.Fits
  stores : ∀ bit < 13, flags.testBit bit → (penField bit).Stores (content bit)
  stores_brush : StoresBrush brush color

namespace StoredPen

variable (stored : StoredPen)

def header : Bytes :=
  ofFields [⟨8, stored.head⟩, ⟨4, stored.flags⟩, ⟨4, stored.unit⟩, ⟨4, stored.width⟩]

def data : Bytes := penData stored.flags stored.content (List.range 13)

def bytes : Bytes := stored.header ++ (stored.data ++ ofFields stored.brush)

/-- The solid pen of the width and the colour of the brush. -/
def pen : Gdi.Pen := ⟨0, floatOf stored.width, stored.color⟩

theorem size_header : stored.header.size = 20 := Bytes.size_ofFields _

/-- The fixed fields of a pen, its optional data and its brush are stored one behind the
other. -/
theorem size_bytes :
    stored.bytes.size = 20 + stored.data.size + (stored.brush.map Field.width).sum := by
  rw [bytes, Array.size_append, Array.size_append, size_header, Bytes.size_ofFields, Nat.add_assoc]

variable {stored} {p : Bytes} (hPart : p.HasPart 0 stored.bytes)

include hPart

theorem header_eq : p.u32At 8 = stored.flags ∧ floatAt p 16 = floatOf stored.width := by
  obtain ⟨-, hFlags, -, hWidth, -⟩ :=
    hPart.left.holdsFields (List.forall_mem_append.1 stored.fits).1
  exact ⟨hFlags, floatAt_of_field hWidth⟩

/-- The optional fields lead to the brush, however many of them there are. -/
theorem penDataStop_eq : penDataStop p (p.u32At 8) 20 = 20 + stored.data.size := by
  have hRest := hPart.right
  rw [size_header] at hRest
  rw [(header_eq hPart).1]
  exact penDataStop_of_hasPart stored.stores hRest.left

theorem holdsFields_brush : p.HoldsFields (20 + stored.data.size) stored.brush := by
  have hBrush := hPart.right.right
  rw [size_header] at hBrush
  exact hBrush.holdsFields (List.forall_mem_append.1 stored.fits).2

/-- The brush leads to the end of its colour, where the pen ends. -/
theorem penEnd_eq : penEnd p = stored.bytes.size := by
  rw [penEnd, penDataStop_eq hPart, stored.size_bytes]
  exact congrArg _ (stored.stores_brush.colorEnd_eq (holdsFields_brush hPart))

/-- A stored pen is read back with its width and the colour of its brush. -/
theorem storedPen_eq : storedPen p = .ok stored.pen := by
  have hSize := hPart.end_le
  rw [Nat.zero_add] at hSize
  rw [storedPen_eq_ok_iff, penEnd_eq hPart, penDataStop_eq hPart, (header_eq hPart).2,
    stored.stores_brush.brushColorAt_eq (holdsFields_brush hPart)]
  exact ⟨hSize, rfl⟩

end StoredPen

/-- The record puts an object into a slot, draws nothing and leaves all else as it is. -/
structure Puts (slot : Nat) (object : Gdi.Object) (r : Record) : Prop where
  done : (reading r).outcome = .done
  drawn : ∀ s, Plus.drawn s [r] = []
  after : ∀ s, Plus.after s [r] = { s with objects := s.objects.put slot object }
  select? : ∀ s other, (Plus.after s [r]).objects.select? other =
    if other = slot then some object else s.objects.select? other

/-- A record that asks for a definition and nothing else puts the object into its slot, draws
nothing and leaves the rest of the session alone. -/
theorem puts_of_reading {slot : Nat} {object : Gdi.Object} {r : Record}
    (hReading : reading r = ⟨[.define slot object], .done⟩) : Puts slot object r := by
  have hAfter (s : Session) : after s [r] = { s with objects := s.objects.put slot object } := by
    rw [after, Plotter.after_singleton, hReading]
    rfl
  refine ⟨by rw [hReading], fun s => ?_, hAfter, fun s other => ?_⟩
  · rw [drawn, Plotter.drawn_singleton, hReading]
    rfl
  · rw [hAfter]
    exact s.objects.select?_put slot other object

section

variable {r : Record}

section

variable (hKind : Kind.ofCode? (r.opcode % 0x10000) = some .object)
  (hType : Flags.objectType ⟨r.flags⟩ = 2)

include hKind hType

theorem reading_of_pen :
    reading r = .ofExcept ((storedPen r.payload).map fun pen =>
      [.define (r.flags % 0x100) (.pen pen)]) := by
  simp only [reading, hKind, actions, storedObject, hType]
  cases storedPen r.payload <;> rfl

/-- A pen is refused just if its record is cut short in front of the end of its brush. -/
theorem refuses_pen_iff :
    Session.plotter.Refuses reading r ↔ r.payload.size < penEnd r.payload := by
  rw [Plotter.refuses_iff_of_reading (reading_of_pen hKind hType),
    ne_ok_iff fun _ => storedPen_eq_ok_iff, Nat.not_le]

end

/-- Whatever its flags and optional fields are, a stored pen is put into the slot of its record, and
a record whose payload is cut before the end of the colour of the brush is refused. -/
theorem putsPen_or_refused (hKind : Kind.ofCode? (r.opcode % 0x10000) = some .object)
    (hType : Flags.objectType ⟨r.flags⟩ = 2) (stored : StoredPen)
    (hPart : r.payload.HasPart 0 stored.bytes) :
    Puts (r.flags % 0x100) (.pen stored.pen) r ∧
      ∀ n < stored.bytes.size,
        Session.plotter.Refuses reading { r with payload := r.payload.extract 0 n } := by
  refine ⟨puts_of_reading ?_, fun n hCut => ?_⟩
  · rw [reading_of_pen hKind hType, StoredPen.storedPen_eq hPart]
    rfl
  · let cut : Record := { r with payload := r.payload.extract 0 n }
    rw [refuses_pen_iff (r := cut) hKind hType]
    refine Nat.lt_of_not_le fun hFits => ?_
    -- A shorter payload that held a whole pen would end it where the longer one does.
    have hSame := penEnd_append hFits (r.payload.extract n r.payload.size)
    have hWhole : cut.payload ++ r.payload.extract n r.payload.size = r.payload := by
      simp [cut]
    have hSize : cut.payload.size ≤ n := by
      rw [Array.size_extract]
      omega
    rw [hWhole, StoredPen.penEnd_eq hPart] at hSame
    omega

/-- A pen with a transform, two dashes, no compound lines, a cap of three bytes at its end and a
gradient for its brush. -/
def cappedPen : StoredPen where
  head := 0xDBC01002
  flags := 0x1501
  unit := 0
  width := 0x40A00000
  content
    | 0 => Array.replicate 24 0
    | 8 => ofFields [⟨4, 2⟩] ++ Array.replicate 8 1
    | 10 => ofFields [⟨4, 0⟩] ++ #[]
    | _ => ofFields [⟨4, 3⟩] ++ #[7, 8, 9]
  brush := [⟨4, 0xDBC01002⟩, ⟨4, 4⟩, ⟨24, 0⟩, ⟨4, 0xFF112233⟩]
  color := .ofArgb 0xFF112233
  fits := by decide
  stores := by
    intro bit hBit hSet
    have hBits : ∀ bit < 13, Nat.testBit 0x1501 bit → bit = 0 ∨ bit = 8 ∨ bit = 10 ∨ bit = 12 := by
      decide
    rcases hBits bit hBit hSet with rfl | rfl | rfl | rfl
    · exact .fixed rfl
    · exact .counted (by decide) rfl
    · exact .counted (by decide) rfl
    · exact .sized (by decide)
  stores_brush := .linearGradient _ _ _

/-- The capped pen is put into slot seven, and cut in the middle of its cap it is refused. -/
theorem putsPen_or_refused_cappedPen :
    let r : Record := ⟨0x4008, 0, 0x8207, 108, cappedPen.bytes ++ #[1, 2, 3]⟩
    Puts 7 (.pen ⟨0, floatOf 0x40A00000, ⟨0x11, 0x22, 0x33, 0xFF⟩⟩) r ∧
      Session.plotter.Refuses reading { r with payload := r.payload.extract 0 65 } := by
  intro r
  have hSlot : r.flags % 0x100 = 7 := by decide
  have hColor : Color.ofArgb 0xFF112233 = ⟨0x11, 0x22, 0x33, 0xFF⟩ := by decide
  obtain ⟨hPuts, hCut⟩ := putsPen_or_refused (r := r) rfl (by decide) cappedPen
    (Bytes.hasPart_self (cappedPen.bytes ++ #[1, 2, 3])).left
  rw [hSlot] at hPuts
  rw [← hColor]
  exact ⟨hPuts, hCut 65 (by decide +kernel)⟩

end

end Plus

end Metafile
