import Metafile.Proofs.Emf.Poly
import Metafile.Proofs.Plus.Effect
import Metafile.Proofs.Plus.Settled
import Metafile.Proofs.Surface.Lettering
import Metafile.Proofs.Text.Encoding

/-! Records of text. Main statement: in all of the five layouts a record draws the text that it
declares, once and at its place, and is refused if the text leaves its payload. -/

namespace Metafile

open Bytes (ofFields)
open Emf (Width)

/-- The record succeeds, leaves the state as it is and draws the text once, in the style of the
state. If the text is empty it draws nothing. -/
structure Plotter.DrawsText {σ α : Type} (m : Plotter σ α) (reading : Record → Reading α)
    (text : String) (point : σ → Point Float) (style : σ → List Call) (r : Record) : Prop where
  done : (reading r).outcome = .done
  drawn : ∀ s, m.drawn reading s [r] =
    if text = "" then [] else style s ++ [.drawText text (point s)]
  style : ∀ s, ∀ call ∈ style s, call.text? = none
  after : ∀ s, m.after reading s [r] = s

namespace Gdi

namespace Session

variable (s : Session)

/-- Where a text is drawn: at its reference point, or at the current position if the alignment
says so. -/
def textPlace (reference : Point Int) : Point Float :=
  s.place (if s.dc.textAlign.testBit 0 then s.dc.position else reference.ofInts)

/-- The font and the colour of texts. -/
def textStyle : List Call := s.fontCalls ++ [.setFillColor s.dc.textColor]

theorem text?_textStyle : ∀ call ∈ s.textStyle, call.text? = none := by
  unfold textStyle fontCalls
  split <;> simp [Call.text?]

/-- A text is drawn in its style at its place, and not at all if it is empty. -/
theorem draw_text_eq (text : String) (reference : Point Int) :
    s.draw (.text text reference.ofInts) =
      if text = "" then [] else s.textStyle ++ [.drawText text (s.textPlace reference)] := by
  have hAlign : s.dc.textFromPosition = s.dc.textAlign.testBit 0 := by
    rw [DeviceContext.textFromPosition, Nat.testBit_zero]
    rfl
  simp only [draw, hAlign, String.isEmpty_iff, textStyle, List.append_assoc, List.singleton_append,
    textPlace]

end Session

/-- The record draws the text in the font and colour of the session at its reference point or at
the current position. -/
def Dialect.DrawsText (d : Dialect) (text : String) (reference : Point Int) (r : Record) : Prop :=
  Session.plotter.DrawsText d.reading text (Session.textPlace · reference) Session.textStyle r

/-- A record that asks for a text and nothing else draws it once and leaves the session as it
is. -/
theorem Dialect.drawsText_of_reading {d : Dialect} {r : Record} {text : String}
    {reference : Point Int} (hReading : d.reading r = ⟨[.text text reference.ofInts], .done⟩) :
    d.DrawsText text reference r where
  done := by rw [hReading]
  drawn s := by
    rw [Plotter.drawn_singleton, hReading, ← s.draw_text_eq]
    exact List.append_nil _
  style := Session.text?_textStyle
  after s := by
    rw [Plotter.after_singleton, hReading]
    rfl

end Gdi

open Gdi

namespace Wmf

/-- A point with its vertical coordinate first. -/
def pointFields (point : Point Int) : List Bytes.Field :=
  [Width.short.coordinate point.y, Width.short.coordinate point.x]

/-- The bytes of the rectangle that options for an opaque or clipped background ask for. -/
def rectangleSize (options : Nat) : Nat :=
  if options.testBit 1 || options.testBit 2 then 8 else 0

/-- A text in front of its reference point, with a byte behind it if it is of odd length. -/
structure HoldsText (text : Bytes) (reference : Point Int) (r : Record) : Prop where
  kind : Kind.ofCode? (r.opcode % 0x10000) = some .textOut
  payload : ∃ padding : Bytes, padding.size = text.size % 2 ∧
    r.payload.HasPart 0
      (ofFields [⟨2, text.size⟩] ++ (text ++ padding) ++ ofFields (pointFields reference))

/-- A text behind its reference point, its length, the options and the rectangle if they ask for
one. -/
structure HoldsExtText (text : Bytes) (reference : Point Int) (options : Nat) (r : Record) :
    Prop where
  kind : Kind.ofCode? (r.opcode % 0x10000) = some .extTextOut
  payload : ∃ rectangle : Bytes, rectangle.size = rectangleSize options ∧
    r.payload.HasPart 0
      (ofFields (pointFields reference ++ [⟨2, text.size⟩, ⟨2, options⟩]) ++ rectangle ++ text)

section

variable {p : Bytes} {action : Action}

/-- A text record is read just if its payload holds the length, the padded text and the point
behind it. The length is signed, so that a negative one stands for no text. -/
theorem textOut_eq_ok_iff {length : Nat} (hLength : (p.i16At 0).toNat = length) :
    textOut p = .ok action ↔ 2 + (length + length % 2) + 4 ≤ p.size ∧
      .text (Text.ofWindows1252 (p.slice 2 length)) (drawnPoint p (2 + (length + length % 2))) =
        action := by
  subst hLength
  simp only [textOut, Bytes.need_bind_eq_ok_iff, pure, Except.pure, Except.ok.injEq]
  constructor
  · rintro ⟨-, hSize, hAction⟩
    exact ⟨hSize, hAction⟩
  · rintro ⟨hSize, hAction⟩
    exact ⟨by omega, hSize, hAction⟩

/-- The extended record has the rectangle in front of the text if the options ask for one. It is
skipped and not checked. -/
theorem extTextOut_eq_ok_iff {length options : Nat} (hLength : (p.i16At 4).toNat = length)
    (hOptions : p.u16At 6 = options) :
    extTextOut p = .ok action ↔ 8 + rectangleSize options + length ≤ p.size ∧
      .text (Text.ofWindows1252 (p.slice (8 + rectangleSize options) length)) (drawnPoint p 0) =
        action := by
  subst hLength hOptions
  have hStart : (if (p.u16At 6).testBit 1 || (p.u16At 6).testBit 2 then 16 else 8) =
      8 + rectangleSize (p.u16At 6) := by
    unfold rectangleSize
    split <;> rfl
  simp only [extTextOut, Bytes.need_bind_eq_ok_iff, hStart, pure, Except.pure, Except.ok.injEq]
  constructor
  · rintro ⟨-, hSize, hAction⟩
    exact ⟨hSize, hAction⟩
  · rintro ⟨hSize, hAction⟩
    exact ⟨by omega, hSize, hAction⟩

theorem fits_pointFields (point : Point Int) : ∀ f ∈ pointFields point, f.Fits :=
  List.forall_mem_cons.2 ⟨Width.short.fits_coordinate _,
    List.forall_mem_singleton.2 (Width.short.fits_coordinate _)⟩

/-- A point is read back from its fields, with its sign. -/
theorem drawnPoint_of_fields {start : Nat} {point : Point Int} (hRoom : Width.short.HasRoom point)
    (hFields : p.HoldsFields start (pointFields point)) : drawnPoint p start = point.ofInts := by
  obtain ⟨hY, hX, -⟩ := hFields
  obtain ⟨hXLow, hXHigh⟩ := hRoom point.x List.mem_cons_self
  obtain ⟨hYLow, hYHigh⟩ := hRoom point.y (List.mem_cons_of_mem _ List.mem_cons_self)
  have hXWord : p.u16At (start + 2) = (Width.short.coordinate point.x).value := hX
  have hYWord : p.u16At start = (Width.short.coordinate point.y).value := hY
  have hXRead : p.i16At (start + 2) = point.x := by
    rw [Bytes.i16At, hXWord]
    exact Width.short.signed_coordinate hXLow hXHigh
  have hYRead : p.i16At start = point.y := by
    rw [Bytes.i16At, hYWord]
    exact Width.short.signed_coordinate hYLow hYHigh
  rw [drawnPoint, reversedPoint, hXRead, hYRead]

end

theorem actions_textOut (p : Bytes) :
    actions .textOut p = (textOut p).map fun action => [action] := rfl

theorem actions_extTextOut (p : Bytes) :
    actions .extTextOut p = (extTextOut p).map fun action => [action] := rfl

section

variable {text : Bytes} {reference : Point Int} {r : Record}
  (hLength : text.size ≤ 32767) (hRoom : Width.short.HasRoom reference)

include hLength hRoom

/-- A record with a text in its layout asks for this text at this point. Bytes behind the fields
are not read. -/
theorem HoldsText.reading_eq (hHolds : HoldsText text reference r) :
    dialect.reading r = ⟨[.text (Text.ofWindows1252 text) reference.ofInts], .done⟩ := by
  obtain ⟨padding, hPadding, hPart⟩ := hHolds.payload
  have hCount : r.payload.i16At 0 = text.size := by
    refine Bytes.i16At_of_field (Nat.lt_succ_of_le hLength) (hPart.left.left.holdsFields ?_).1
    exact List.forall_mem_singleton.2 (show text.size < 2 ^ 16 by omega)
  have hText : r.payload.HasPart 2 text := hPart.left.right.left
  have hPlace : 0 + (ofFields [⟨2, text.size⟩] ++ (text ++ padding)).size =
      2 + (text.size + text.size % 2) := by
    rw [Array.size_append, Array.size_append, Bytes.size_ofFields, hPadding, Nat.zero_add]
    rfl
  have hPoint := hPart.right
  rw [hPlace] at hPoint
  have hDrawn := drawnPoint_of_fields hRoom (hPoint.holdsFields (fits_pointFields _))
  have hEnd := hPoint.end_le
  rw [Bytes.size_ofFields] at hEnd
  have hRead : textOut r.payload = .ok (.text (Text.ofWindows1252 text) reference.ofInts) := by
    rw [textOut_eq_ok_iff (by rw [hCount, Int.toNat_natCast]), hText.slice_eq, hDrawn]
    exact ⟨hEnd, rfl⟩
  exact Dialect.reading_of_ok (d := dialect) hHolds.kind (actions_textOut _) hRead

/-- The same holds of the extended layout, whatever the other options are. -/
theorem HoldsExtText.reading_eq {options : Nat} (hOptions : options < 2 ^ 16)
    (hHolds : HoldsExtText text reference options r) :
    dialect.reading r = ⟨[.text (Text.ofWindows1252 text) reference.ofInts], .done⟩ := by
  obtain ⟨rectangle, hRectangle, hPart⟩ := hHolds.payload
  have hFits : ∀ f ∈ pointFields reference ++ [⟨2, text.size⟩, ⟨2, options⟩], f.Fits :=
    List.forall_mem_append.2 ⟨fits_pointFields _, List.forall_mem_cons.2
      ⟨show text.size < 2 ^ 16 by omega, List.forall_mem_singleton.2 hOptions⟩⟩
  have hFields := hPart.left.left.holdsFields hFits
  rw [Bytes.holdsFields_append] at hFields
  obtain ⟨hPoint, hSize, hWord, -⟩ := hFields
  have hCount : r.payload.i16At 4 = text.size :=
    Bytes.i16At_of_field (Nat.lt_succ_of_le hLength) hSize
  have hPlace : 0 + (ofFields (pointFields reference ++ [⟨2, text.size⟩, ⟨2, options⟩]) ++
      rectangle).size = 8 + rectangleSize options := by
    rw [Array.size_append, Bytes.size_ofFields, hRectangle, Nat.zero_add]
    rfl
  have hText := hPart.right
  rw [hPlace] at hText
  have hRead : extTextOut r.payload = .ok (.text (Text.ofWindows1252 text) reference.ofInts) := by
    rw [extTextOut_eq_ok_iff (by rw [hCount, Int.toNat_natCast]) hWord, hText.slice_eq,
      drawnPoint_of_fields hRoom hPoint]
    exact ⟨hText.end_le, rfl⟩
  exact Dialect.reading_of_ok (d := dialect) hHolds.kind (actions_extTextOut _) hRead

end

end Wmf

namespace Emf

/-- The kind of the records of text in UTF-16, or of text with one byte for each character. -/
def textKind (wide : Bool) : Kind := if wide then .extTextOutW else .extTextOutA

/-- The bytes of as many characters. -/
def textLength (wide : Bool) (characters : Nat) : Nat :=
  if wide then 2 * characters else characters

def storedText (wide : Bool) (bytes : Bytes) : String :=
  if wide then Text.ofUtf16 bytes else Text.ofWindows1252 bytes

/-- A reference point, the number of characters and the place of the text, which counts from the
start of the record, eight bytes before the payload. The text may stand anywhere behind that. -/
structure HoldsText (wide : Bool) (text : Bytes) (characters place : Nat) (reference : Point Int)
    (r : Record) : Prop where
  kind : Kind.ofCode? r.opcode = some (textKind wide)
  fields : r.payload.HasPart 28
    (ofFields (Width.long.pointFields reference ++ [⟨4, characters⟩, ⟨4, place⟩]))
  le_place : 8 ≤ place
  text : r.payload.HasPart (place - 8) text

section

variable {wide : Bool} {p : Bytes}

/-- A text record of EMF is read just if its payload holds the fixed fields and the text at the
place that they give. The place counts from the start of the record, which has eight bytes in
front of the payload. -/
theorem extTextOut_eq_ok_iff {action : Action} {characters place : Nat}
    (hCharacters : p.u32At 36 = characters) (hPlace : p.u32At 40 = place) :
    extTextOut wide p = .ok action ↔
      (44 ≤ p.size ∧ 8 ≤ place ∧ place - 8 + textLength wide characters ≤ p.size) ∧
        .text (storedText wide (p.slice (place - 8) (textLength wide characters)))
          (drawnPoint p 28) = action := by
  subst hCharacters hPlace
  simp only [extTextOut, Bytes.need_bind_eq_ok_iff, and_assoc]
  refine and_congr_right fun _ => ?_
  by_cases hInside : p.u32At 40 < 8
  · simp [hInside, throw, throwThe, MonadExceptOf.throw, bind, Except.bind]
  · by_cases hPast : p.size < p.u32At 40 - 8 + textLength wide (p.u32At 36)
    · simp only [textLength] at hPast
      simp [hInside, hPast, textLength, throw, throwThe, MonadExceptOf.throw, bind, Except.bind]
    · simp only [textLength] at hPast
      simp [hInside, hPast, textLength, storedText, Nat.not_lt.1 hInside, Nat.not_lt.1 hPast,
        pure, Except.pure]

/-- Both kinds of text records are read by one function, with the width of the characters as its
parameter. -/
theorem actions_textKind (limit : Nat) :
    actions limit (textKind wide) p = (extTextOut wide p).map fun action => [action] := by
  cases wide <;> rfl

end

variable {limit : Nat} {wide : Bool} {text : Bytes} {characters place : Nat}
  {reference : Point Int} {r : Record}

/-- A record with a text in its layout asks for this text at this point. The text may stand
anywhere behind the fields. -/
theorem HoldsText.reading_eq (hHolds : HoldsText wide text characters place reference r)
    (hLength : text.size = textLength wide characters) (hCharacters : characters < 2 ^ 32)
    (hPlace : place < 2 ^ 32) (hRoom : Width.long.HasRoom reference) :
    (dialect limit).reading r =
      ⟨[.text (storedText wide text) reference.ofInts], .done⟩ := by
  have hFits : ∀ f ∈ Width.long.pointFields reference ++ [⟨4, characters⟩, ⟨4, place⟩], f.Fits := by
    refine List.forall_mem_append.2 ⟨?_, List.forall_mem_cons.2
      ⟨hCharacters, List.forall_mem_singleton.2 hPlace⟩⟩
    simpa using Width.long.fits_points [reference]
  have hFields := hHolds.fields.holdsFields hFits
  rw [Bytes.holdsFields_append] at hFields
  obtain ⟨hPoint, hCount, hWord, -⟩ := hFields
  have hDrawn : drawnPoint r.payload 28 = reference.ofInts :=
    (Width.long.stores_point hRoom).read _ _ hPoint
  have hSize := hHolds.fields.end_le
  have hEnd := hHolds.text.end_le
  have hText := hHolds.text.slice_eq
  rw [Bytes.size_ofFields] at hSize
  rw [hLength] at hEnd hText
  have hRead : extTextOut wide r.payload = .ok (.text (storedText wide text) reference.ofInts) := by
    rw [extTextOut_eq_ok_iff hCount hWord, hText, hDrawn]
    exact ⟨⟨hSize, hHolds.le_place, hEnd⟩, rfl⟩
  exact Dialect.reading_of_ok (d := dialect limit) hHolds.kind (actions_textKind limit) hRead

end Emf

namespace Plus

/-- A text behind its brush, format, length, reference point and size. The numbers of the point
are given by their bits. -/
structure HoldsText (text : String) (brush x y : Nat) (r : Record) : Prop where
  kind : Kind.ofCode? (r.opcode % 0x10000) = some .drawString
  payload : ∃ format size : Bytes, format.size = 4 ∧ size.size = 8 ∧
    r.payload.HasPart 0 (ofFields [⟨4, brush⟩] ++ format ++
      ofFields [⟨4, (Text.utf16 text).length⟩, ⟨4, x⟩, ⟨4, y⟩] ++ size ++ Text.utf16Bytes text)

/-- The brush with which a record paints whose brush field holds a number. -/
def brushOf (f : Flags) (field : Nat) : BrushRef :=
  if f.solid then .color (.ofArgb field) else .object (field % 0x100)

/-- What a record asks for to draw a text that is not empty. -/
def textActions (text : String) (brush : BrushRef) (point : Point Float) : List Action :=
  if text = "" then [] else [.fillWith brush, .text text point]

/-- A string record is read just if its payload holds as many units as it says. -/
theorem drawString_eq_ok_iff {f : Flags} {p : Bytes} {asked : List Action} {length : Nat}
    (hLength : p.u32At 8 = length) :
    drawString f p = .ok asked ↔ 28 + 2 * length ≤ p.size ∧
      textActions (Text.ofUtf16 (p.slice 28 (2 * length))) (brushRef f p)
        ⟨floatAt p 12, floatAt p 16⟩ = asked := by
  subst hLength
  simp only [drawString, Bytes.need_bind_eq_ok_iff, String.isEmpty_iff]
  by_cases hPast : p.size < 28 + 2 * p.u32At 8
  · simp [hPast, Nat.not_le.2 hPast, throw, throwThe, MonadExceptOf.throw, bind, Except.bind]
  · have hSize : 28 ≤ p.size := by omega
    simp only [hPast, if_false, hSize, true_and, Nat.not_lt.1 hPast, textActions]
    split <;> simp [pure, Except.pure]

theorem reading_of_drawString {r : Record}
    (hKind : Kind.ofCode? (r.opcode % 0x10000) = some .drawString) :
    reading r = .ofExcept (drawString ⟨r.flags⟩ r.payload) := by
  rw [reading, hKind]
  rfl

/-- A string record is refused just if it is cut short. It draws nothing then and leaves the
session alone. -/
theorem refuses_drawString_iff {r : Record}
    (hKind : Kind.ofCode? (r.opcode % 0x10000) = some .drawString) :
    Session.plotter.Refuses reading r ↔
      r.payload.size < 28 + 2 * r.payload.u32At 8 := by
  have hReading : reading r = .ofExcept ((drawString ⟨r.flags⟩ r.payload).map id) := by
    rw [Except.map_id]
    exact reading_of_drawString hKind
  rw [Plotter.refuses_iff_of_reading hReading, ne_ok_iff fun _ => drawString_eq_ok_iff rfl,
    Nat.not_le]

variable {text : String} {brush x y : Nat} {r : Record}

/-- The record draws the text with the brush, at the point to which the transform leads. -/
def DrawsText (text : String) (brush : BrushRef) (point : Point Float) (r : Record) : Prop :=
  Session.plotter.DrawsText reading text (fun s => s.transform.apply point)
    (fun s => [.setFillColor (s.brushColor brush)]) r

/-- A record that asks to take up a brush and to draw a text draws it once, in the colour of the
brush and at the place to which the transform leads. -/
theorem drawsText_of_reading {brush : BrushRef} {point : Point Float}
    (hReading : reading r = ⟨textActions text brush point, .done⟩) :
    DrawsText text brush point r where
  done := by rw [hReading]
  drawn s := by
    rw [Plotter.drawn_singleton, hReading, textActions]
    split <;> rfl
  style s := List.forall_mem_singleton.2 rfl
  after s := by
    rw [Plotter.after_singleton, hReading, textActions]
    split <;> rfl

/-- A string record asks for its brush first and then for its text, which is read back unit by
unit. A text that ends in a NUL is excluded, as this would be dropped. -/
theorem HoldsText.reading_eq (hHolds : HoldsText text brush x y r)
    (hLast : text.toList.getLast? ≠ some '\x00') (hLength : (Text.utf16 text).length < 2 ^ 32)
    (hBrush : brush < 2 ^ 32) (hX : x < 2 ^ 32) (hY : y < 2 ^ 32) :
    reading r = ⟨textActions text (brushOf ⟨r.flags⟩ brush) ⟨floatOf x, floatOf y⟩, .done⟩ := by
  obtain ⟨format, size, hFormat, hSize, hPart⟩ := hHolds.payload
  have hBrushField := (hPart.left.left.left.left.holdsFields
    (List.forall_mem_singleton.2 hBrush)).1
  have hMiddle : 0 + (ofFields [⟨4, brush⟩] ++ format).size = 8 := by
    rw [Array.size_append, Bytes.size_ofFields, hFormat]
    rfl
  have hFields := hPart.left.left.right
  rw [hMiddle] at hFields
  obtain ⟨hCount, hXField, hYField, -⟩ := hFields.holdsFields
    (List.forall_mem_cons.2 ⟨hLength, List.forall_mem_cons.2 ⟨hX, List.forall_mem_singleton.2 hY⟩⟩)
  have hFront : 0 + (ofFields [⟨4, brush⟩] ++ format ++
      ofFields [⟨4, (Text.utf16 text).length⟩, ⟨4, x⟩, ⟨4, y⟩] ++ size).size = 28 := by
    simp only [Array.size_append, Bytes.size_ofFields, hFormat, hSize]
    rfl
  have hText := hPart.right
  rw [hFront] at hText
  have hEnd := hText.end_le
  have hSlice := hText.slice_eq
  rw [Text.size_utf16Bytes] at hEnd hSlice
  have hRef : brushRef ⟨r.flags⟩ r.payload = brushOf ⟨r.flags⟩ brush := by
    have hWord : r.payload.u32At 0 = brush := hBrushField
    rw [brushRef, hWord]
    rfl
  have hPoint : (⟨floatAt r.payload 12, floatAt r.payload 16⟩ : Point Float) =
      ⟨floatOf x, floatOf y⟩ := by
    have hXAt : floatAt r.payload 12 = floatOf x := floatAt_of_field hXField
    have hYAt : floatAt r.payload 16 = floatOf y := floatAt_of_field hYField
    rw [hXAt, hYAt]
  have hRead : drawString ⟨r.flags⟩ r.payload =
      .ok (textActions text (brushOf ⟨r.flags⟩ brush) ⟨floatOf x, floatOf y⟩) := by
    rw [drawString_eq_ok_iff hCount, hSlice, Text.ofUtf16_utf16Bytes hLast, hRef, hPoint]
    exact ⟨hEnd, rfl⟩
  rw [reading_of_drawString hHolds.kind, hRead]
  rfl

end Plus

/-- A text record is refused just if its payload is too short for the length that it gives. -/
theorem Wmf.refuses_textOut_iff {r : Record}
    (hKind : Wmf.Kind.ofCode? (r.opcode % 0x10000) = some .textOut) :
    Session.plotter.Refuses Wmf.dialect.reading r ↔
      let length := (r.payload.i16At 0).toNat
      r.payload.size < 2 + (length + length % 2) + 4 := by
  rw [Dialect.refuses_iff (d := Wmf.dialect) hKind (Wmf.actions_textOut _),
    ne_ok_iff fun _ => Wmf.textOut_eq_ok_iff rfl, Nat.not_le]

/-- The extended record is refused just if it is too short for its rectangle and its text. -/
theorem Wmf.refuses_extTextOut_iff {r : Record}
    (hKind : Wmf.Kind.ofCode? (r.opcode % 0x10000) = some .extTextOut) :
    Session.plotter.Refuses Wmf.dialect.reading r ↔
      r.payload.size <
        8 + Wmf.rectangleSize (r.payload.u16At 6) + (r.payload.i16At 4).toNat := by
  rw [Dialect.refuses_iff (d := Wmf.dialect) hKind (Wmf.actions_extTextOut _),
    ne_ok_iff fun _ => Wmf.extTextOut_eq_ok_iff rfl rfl, Nat.not_le]

/-- A record is also refused if the place of its text lies in the header of the record. -/
theorem Emf.refuses_extTextOut_iff {limit : Nat} {wide : Bool} {r : Record}
    (hKind : Emf.Kind.ofCode? r.opcode = some (Emf.textKind wide)) :
    Session.plotter.Refuses (Emf.dialect limit).reading r ↔
      r.payload.size < 44 ∨ r.payload.u32At 40 < 8 ∨
        r.payload.size <
          r.payload.u32At 40 - 8 + Emf.textLength wide (r.payload.u32At 36) := by
  rw [Dialect.refuses_iff (d := Emf.dialect limit) hKind (Emf.actions_textKind limit),
    ne_ok_iff fun _ => Emf.extTextOut_eq_ok_iff rfl rfl]
  simp only [not_and_or, Nat.not_le]

/-- A record draws the text that it holds in its layout, once, at its place and without the NULs
at its end, and it is refused just if the text, as long as it is declared, leaves the payload or,
in EMF, starts inside the header of the record. -/
theorem drawsText_or_refused :
    (∀ bytes : Bytes,
      Text.IsTrimmed (bytes.toList.map Text.windows1252Char) (Text.ofWindows1252 bytes)) ∧
    (∀ (text : Bytes) (reference : Point Int) (r : Record),
      text.size ≤ 32767 → Width.short.HasRoom reference →
      (Wmf.HoldsText text reference r ∨
        ∃ options < 2 ^ 16, Wmf.HoldsExtText text reference options r) →
      Wmf.dialect.DrawsText (Text.ofWindows1252 text) reference r) ∧
    (∀ (limit : Nat) (text : Bytes) (place : Nat) (reference : Point Int) (r : Record),
      text.size < 2 ^ 32 → place < 2 ^ 32 → Width.long.HasRoom reference →
      Emf.HoldsText false text text.size place reference r →
      (Emf.dialect limit).DrawsText (Text.ofWindows1252 text) reference r) ∧
    (∀ (limit : Nat) (text : String) (place : Nat) (reference : Point Int) (r : Record),
      text.toList.getLast? ≠ some '\x00' → (Text.utf16 text).length < 2 ^ 32 → place < 2 ^ 32 →
      Width.long.HasRoom reference →
      Emf.HoldsText true (Text.utf16Bytes text) (Text.utf16 text).length place reference r →
      (Emf.dialect limit).DrawsText text reference r) ∧
    (∀ (text : String) (brush x y : Nat) (r : Record),
      text.toList.getLast? ≠ some '\x00' → (Text.utf16 text).length < 2 ^ 32 →
      brush < 2 ^ 32 → x < 2 ^ 32 → y < 2 ^ 32 → Plus.HoldsText text brush x y r →
      Plus.DrawsText text (Plus.brushOf ⟨r.flags⟩ brush) ⟨Plus.floatOf x, Plus.floatOf y⟩ r) ∧
    (∀ r : Record, Wmf.Kind.ofCode? (r.opcode % 0x10000) = some .textOut →
      (Session.plotter.Refuses Wmf.dialect.reading r ↔
        let length := (r.payload.i16At 0).toNat
        r.payload.size < 2 + (length + length % 2) + 4)) ∧
    (∀ r : Record, Wmf.Kind.ofCode? (r.opcode % 0x10000) = some .extTextOut →
      (Session.plotter.Refuses Wmf.dialect.reading r ↔
        r.payload.size <
          8 + Wmf.rectangleSize (r.payload.u16At 6) + (r.payload.i16At 4).toNat)) ∧
    (∀ (limit : Nat) (wide : Bool) (r : Record),
      Emf.Kind.ofCode? r.opcode = some (Emf.textKind wide) →
      (Session.plotter.Refuses (Emf.dialect limit).reading r ↔
        r.payload.size < 44 ∨ r.payload.u32At 40 < 8 ∨
          r.payload.size <
            r.payload.u32At 40 - 8 + Emf.textLength wide (r.payload.u32At 36))) ∧
    ∀ r : Record, Plus.Kind.ofCode? (r.opcode % 0x10000) = some .drawString →
      (Plus.Session.plotter.Refuses Plus.reading r ↔
        r.payload.size < 28 + 2 * r.payload.u32At 8) := by
  refine ⟨Text.isTrimmed_ofWindows1252, ?_, ?_, ?_, ?_, fun r => Wmf.refuses_textOut_iff,
    fun r => Wmf.refuses_extTextOut_iff, fun limit wide r => Emf.refuses_extTextOut_iff,
    fun r => Plus.refuses_drawString_iff⟩
  · rintro text reference r hLength hRoom (hHolds | ⟨options, hOptions, hHolds⟩)
    · exact Dialect.drawsText_of_reading (hHolds.reading_eq hLength hRoom)
    · exact Dialect.drawsText_of_reading (hHolds.reading_eq hLength hRoom hOptions)
  · intro limit text place reference r hLength hPlace hRoom hHolds
    exact Dialect.drawsText_of_reading (hHolds.reading_eq rfl hLength hPlace hRoom)
  · intro limit text place reference r hLast hLength hPlace hRoom hHolds
    have hReading : (Emf.dialect limit).reading r = _ :=
      hHolds.reading_eq (Text.size_utf16Bytes text) hLength hPlace hRoom
    have hText : Emf.storedText true (Text.utf16Bytes text) = text := Text.ofUtf16_utf16Bytes hLast
    rw [hText] at hReading
    exact Dialect.drawsText_of_reading hReading
  · intro text brush x y r hLast hLength hBrush hX hY hHolds
    exact Plus.drawsText_of_reading (hHolds.reading_eq hLast hLength hBrush hX hY)

/-- A text of three bytes, the last of which is a NUL, in both layouts of WMF and of EMF with one
byte for each character, a text with a pair of surrogates in UTF-16, and two that are refused. -/
theorem drawsText_or_refused_quotedLetter :
    let bytes : Bytes := #[0x93, 0x41, 0]
    let letters := "\u201cA"
    let clef := "𝄞 \u00e9"
    let reference : Point Int := ⟨-5, 20⟩
    let textOut : Record := ⟨0x0521, 0, 0, 18,
      ofFields [⟨2, bytes.size⟩] ++ (bytes ++ #[0xAA]) ++ ofFields (Wmf.pointFields reference)⟩
    let extTextOut : Record := ⟨0x0A32, 0, 0, 18,
      ofFields (Wmf.pointFields reference ++ [⟨2, bytes.size⟩, ⟨2, 4⟩]) ++
        Array.replicate 8 7 ++ bytes⟩
    let emf (wide : Bool) (text : Bytes) (characters : Nat) : Record :=
      ⟨(Emf.textKind wide).code, 0, 0, 108, Array.replicate 28 0 ++
        ofFields (Width.long.pointFields reference ++ [⟨4, characters⟩, ⟨4, 54⟩]) ++
        #[1, 2] ++ text⟩
    let ansi := emf false bytes bytes.size
    let wide := emf true (Text.utf16Bytes clef) (Text.utf16 clef).length
    let plus : Record := ⟨0x401C, 0, 0x8000, 108,
      ofFields [⟨4, 0xFF0000FF⟩] ++ Array.replicate 4 0 ++
        ofFields [⟨4, (Text.utf16 clef).length⟩, ⟨4, 0x3F800000⟩, ⟨4, 0xC0000000⟩] ++
        Array.replicate 8 0 ++ Text.utf16Bytes clef⟩
    let cut (r : Record) : Record := { r with payload := r.payload.pop }
    Wmf.dialect.DrawsText letters reference textOut ∧
      Wmf.dialect.DrawsText letters reference extTextOut ∧
      (Emf.dialect 1).DrawsText letters reference ansi ∧
      (Emf.dialect 1).DrawsText clef reference wide ∧
      Plus.DrawsText clef (Plus.brushOf ⟨0x8000⟩ 0xFF0000FF)
        ⟨Plus.floatOf 0x3F800000, Plus.floatOf 0xC0000000⟩ plus ∧
      Session.plotter.Refuses Wmf.dialect.reading (cut textOut) ∧
      Session.plotter.Refuses (Emf.dialect 1).reading (cut wide) := by
  intro bytes letters clef reference textOut extTextOut emf ansi wide plus cut
  obtain ⟨-, hWmf, hAnsi, hWide, hPlus, hTextOut, -, hEmf, -⟩ := drawsText_or_refused
  have hLetters : Text.ofWindows1252 bytes = letters := by decide
  have hLast : clef.toList.getLast? ≠ some '\x00' := by decide
  have hUnits : (Text.utf16 clef).length < 2 ^ 32 := by decide
  have hRoom : Width.short.HasRoom reference := by decide
  have hWideRoom : Width.long.HasRoom reference := by decide
  have hFirst : Wmf.HoldsText bytes reference textOut :=
    ⟨rfl, #[0xAA], by simp [bytes], Bytes.hasPart_self _⟩
  have hSecond : Wmf.HoldsExtText bytes reference 4 extTextOut :=
    ⟨rfl, Array.replicate 8 7, rfl, Bytes.hasPart_self _⟩
  have hString : Plus.HoldsText clef 0xFF0000FF 0x3F800000 0xC0000000 plus :=
    ⟨rfl, Array.replicate 4 0, Array.replicate 8 0, rfl, rfl, Bytes.hasPart_self _⟩
  have hEmfText (isWide : Bool) (text : Bytes) (characters : Nat) :
      Emf.HoldsText isWide text characters 54 reference (emf isWide text characters) := by
    have hWhole := Bytes.hasPart_self (emf isWide text characters).payload
    have hPlace : 0 + (Array.replicate 28 0 ++
        ofFields (Width.long.pointFields reference ++ [⟨4, characters⟩, ⟨4, 54⟩]) ++
        #[1, 2] : Bytes).size = 54 - 8 := by
      rw [Array.size_append, Array.size_append, Bytes.size_ofFields, Array.size_replicate]
      rfl
    have hText := hWhole.right
    rw [hPlace] at hText
    exact ⟨by cases isWide <;> rfl, hWhole.left.left.right, by decide, hText⟩
  rw [← hLetters]
  refine ⟨hWmf bytes reference textOut (by decide) hRoom (.inl hFirst),
    hWmf bytes reference extTextOut (by decide) hRoom (.inr ⟨4, by decide, hSecond⟩),
    hAnsi 1 bytes 54 reference ansi (by decide) (by decide) hWideRoom (hEmfText false _ _),
    hWide 1 clef 54 reference wide hLast hUnits (by decide) hWideRoom (hEmfText true _ _),
    hPlus clef 0xFF0000FF 0x3F800000 0xC0000000 plus hLast hUnits (by decide) (by decide)
      (by decide) hString, (hTextOut _ rfl).2 ?_, (hEmf 1 true _ rfl).2 (.inr (.inr ?_))⟩
  · decide +kernel
  · decide +kernel

end Metafile
