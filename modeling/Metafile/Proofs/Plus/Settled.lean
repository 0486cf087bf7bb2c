import Metafile.Plus.Reading
import Metafile.Proofs.Record.Settled

/-! EMF+ records with more bytes than they need. A record that is carried out asks for the
same when more bytes follow its payload. The optional fields of a pen may claim to be of
any length, but a pen with a field that ends behind its payload has no room for a brush. -/

namespace Metafile.Plus

/-- The number with the bits of a binary32 number. -/
def floatOf (bits : Nat) : Float := (Float32.ofBits (UInt32.ofNat bits)).toFloat

theorem floatAt_of_field {p : Bytes} {start bits : Nat} (hField : p.field start 4 = bits) :
    floatAt p start = floatOf bits := by
  have hWord : p.u32At start = bits := hField
  rw [floatAt, Bytes.f32At, hWord, floatOf]

section

variable {p : Bytes} {start : Nat} (extra : Bytes)

theorem floatAt_append (hFits : start + 4 ≤ p.size) :
    floatAt (p ++ extra) start = floatAt p start := by
  rw [floatAt, floatAt, Bytes.f32At_append extra hFits]

/-- A brush is read alike with other bytes behind it, whether it is a colour or a slot of the
table. -/
theorem brushRef_append (f : Flags) (hFits : 4 ≤ p.size) :
    brushRef f (p ++ extra) = brushRef f p := by
  rw [brushRef, brushRef, Bytes.u32At_append extra hFits]

end

/-- Points are read from their own bytes, in whole numbers as well as in floats. -/
theorem local_pointLayout (compressed : Bool) : (pointLayout compressed).Local := by
  cases compressed with
  | true => exact Layout.local_shortPoint
  | false =>
      intro p extra start hFits
      have hSize : start + 8 ≤ p.size := hFits
      simp (disch := omega) only [pointLayout, Bool.false_eq_true, if_false, floatAt_append]

theorem local_boxLayout (compressed : Bool) : (boxLayout compressed).Local := by
  cases compressed with
  | true =>
      intro p extra start hFits
      have hSize : start + 8 ≤ p.size := hFits
      simp (disch := omega) only [boxLayout, if_true, shortAt, Bytes.i16At_append]
  | false =>
      intro p extra start hFits
      have hSize : start + 16 ≤ p.size := hFits
      simp (disch := omega) only [boxLayout, Bool.false_eq_true, if_false, floatAt_append]

section

variable {α : Type} {layout : Layout α} (hLocal : layout.Local) (start : Nat)
include hLocal

/-- A single value is settled, as its bytes are asked for first. -/
theorem settled_single : Settled fun p => single layout p start :=
  Settled.need fun p extra hFits => hLocal p extra start hFits

theorem settled_counted : Settled fun p => counted layout p start := by
  intro p extra found hRead
  refine Bytes.need_bind_append hRead ?_
  intro hSize hRead
  simp only [Bytes.u32At_append extra hSize] at hRead ⊢
  refine Bytes.need_bind_append hRead ?_
  intro hFits hRead
  rwa [Layout.list_append hLocal extra hFits]

end

/-- A brush is settled although its length depends on its type: the type is asked for before. -/
theorem settled_storedBrushColor (start : Nat) : Settled fun p => storedBrushColor p start := by
  intro p extra color hRead
  refine Bytes.need_bind_append hRead ?_
  intro hSize hRead
  simp (disch := omega) only [Bytes.u32At_append] at hRead ⊢
  split at hRead
  case h_1 => exact hRead
  case h_2 =>
    refine Bytes.need_bind_append hRead ?_
    intro hFits hRead
    rwa [Bytes.u32At_append extra hFits]
  case h_3 =>
    refine Bytes.need_bind_append hRead ?_
    intro hFits hRead
    rwa [Bytes.u32At_append extra hFits]
  case h_4 => exact hRead

namespace PenField

variable (p : Bytes) (start : Nat)

theorem le_stop (field : PenField) : start ≤ field.stop p start := by
  cases field with
  | fixed size => exact Nat.le_add_right ..
  | counted | sized =>
      rw [stop]
      omega

/-- The length of a field that ends inside a payload stands inside it. -/
theorem stop_append {p : Bytes} {start : Nat} (field : PenField)
    (hFits : field.stop p start ≤ p.size) (extra : Bytes) :
    field.stop (p ++ extra) start = field.stop p start := by
  cases field with
  | fixed size => rfl
  | counted | sized =>
      rw [stop] at hFits
      rw [stop, stop, Bytes.u32At_append extra (by omega)]

/-- Where the field of a bit ends. A field whose bit is not set is not there. -/
def pass (penFlags place : Nat) (entry : PenField × Nat) : Nat :=
  if penFlags.testBit entry.2 then entry.1.stop p place else place

theorem le_foldl_pass (penFlags : Nat) (fields : List (PenField × Nat)) :
    start ≤ fields.foldl (pass p penFlags) start := by
  induction fields generalizing start with
  | nil => exact Nat.le_refl _
  | cons entry rest ih =>
      have hFirst : start ≤ pass p penFlags start entry := by
        unfold pass
        split
        · exact le_stop p start entry.1
        · exact Nat.le_refl _
      exact Nat.le_trans hFirst (ih _)

/-- Fields only lead further on, so all of them lie inside a payload if the last one
does. -/
theorem foldl_pass_append {p : Bytes} {start : Nat} (penFlags : Nat)
    (fields : List (PenField × Nat)) (hFits : fields.foldl (pass p penFlags) start ≤ p.size)
    (extra : Bytes) :
    fields.foldl (pass (p ++ extra) penFlags) start = fields.foldl (pass p penFlags) start := by
  induction fields generalizing start with
  | nil => rfl
  | cons entry rest ih =>
      have hFirst : pass p penFlags start entry ≤ p.size :=
        Nat.le_trans (le_foldl_pass p _ penFlags rest) hFits
      have hSame : pass (p ++ extra) penFlags start entry = pass p penFlags start entry := by
        unfold pass at hFirst ⊢
        split
        case isTrue hSet =>
          rw [if_pos hSet] at hFirst
          exact stop_append entry.1 hFirst extra
        case isFalse => rfl
      rw [List.foldl_cons, List.foldl_cons, hSame]
      exact ih hFits

end PenField

/-- The end of the optional data is the same if it lies inside the payload. So do all fields in
front of it then, from which it was computed. -/
theorem penDataStop_append {p : Bytes} {penFlags start : Nat}
    (hFits : penDataStop p penFlags start ≤ p.size) (extra : Bytes) :
    penDataStop (p ++ extra) penFlags start = penDataStop p penFlags start :=
  PenField.foldl_pass_append penFlags PenField.all.zipIdx hFits extra

/-- A pen is settled although its brush may stand anywhere: all of the optional data in front of
it lie inside the payload if the pen can be read. -/
theorem settled_storedPen : Settled storedPen := by
  intro p extra pen hRead
  refine Bytes.need_bind_append hRead ?_
  intro hSize hRead
  simp (disch := omega) only [Bytes.u32At_append, floatAt_append] at hRead ⊢
  split at hRead
  case isTrue => cases hRead
  case isFalse hRoom =>
    rw [penDataStop_append (by omega) extra, if_neg (by rw [Array.size_append]; omega)]
    exact (settled_storedBrushColor _).map _ p extra pen hRead

/-- And so is an object of every type. Types that are not known are stored without a look at
their bytes. -/
theorem settled_storedObject (f : Flags) : Settled (storedObject f) := by
  intro p extra object hRead
  unfold storedObject at hRead ⊢
  split at hRead
  case h_1 => exact (settled_storedBrushColor 0).map _ p extra object hRead
  case h_2 => exact settled_storedPen.map _ p extra object hRead
  case h_3 => exact hRead

/-- The units of a string are asked for before they are read. -/
theorem settled_drawString (f : Flags) : Settled (drawString f) := by
  intro p extra asked hRead
  refine Bytes.need_bind_append hRead ?_
  intro hSize hRead
  simp (disch := omega) only [Bytes.u32At_append, floatAt_append, brushRef_append] at hRead ⊢
  split at hRead
  case isTrue => cases hRead
  case isFalse hFits =>
    rw [if_neg (by rw [Array.size_append]; omega),
      Bytes.slice_append extra (Nat.le_of_not_lt hFits)]
    exact hRead

/-- What is filled with the brush that the payload names first. -/
theorem settled_filled {α : Type} (f : Flags) {required : Nat} (hBrush : 4 ≤ required)
    {read : Bytes → Except Fault α} (hShape : Settled read)
    (asked : BrushRef → α → List Action) :
    Settled fun p =>
      p.need required >>= fun _ => read p >>= fun shape => .ok (asked (brushRef f p) shape) := by
  intro p extra value hRead
  refine Bytes.need_bind_append hRead ?_
  intro hSize hRead
  rw [brushRef_append extra f (by omega)]
  exact hShape.map _ p extra value hRead

/-- Records of every kind are settled, whatever their flags are. -/
theorem settled_actions (kind : Kind) (f : Flags) : SettledReading (actions kind f) := by
  have hBoxes := fun start => settled_counted (local_boxLayout f.compressed) start
  have hBox := fun start => settled_single (local_boxLayout f.compressed) start
  have hPoints := fun start => settled_counted (local_pointLayout f.compressed) start
  cases kind with
  | header | clear | save | restore | setWorldTransform | multiplyWorldTransform
  | translateWorldTransform | scaleWorldTransform | rotateWorldTransform =>
      apply SettledReading.ofExcept
      apply Settled.need
      intro p extra hSize
      simp (disch := omega) only [matrixAt, floatAt_append, Bytes.u32At_append]
  | object => exact .ofExcept ((settled_storedObject f).map _)
  | fillRects =>
      exact .ofExcept (settled_filled f (by decide) (hBoxes 4) fun brush boxes =>
        [.fillWith brush, .fillBoxes boxes])
  | fillPolygon =>
      exact .ofExcept (settled_filled f (by decide) (hPoints 4) fun brush points =>
        [.fillWith brush, .strokeWithNothing, .polygon points])
  | fillEllipse =>
      exact .ofExcept (settled_filled f (by decide) (hBox 4) fun brush box =>
        [.fillWith brush, .strokeWithNothing, .ellipse box])
  | drawRects => exact ((SettledReading.ofExcept ((hBoxes 0).map _)).after _).needing
  | drawLines => exact ((SettledReading.ofExcept ((hPoints 0).map _)).after _).needing
  | drawEllipse => exact (SettledReading.ofExcept ((hBox 0).map _)).after _
  | drawString => exact .ofExcept (settled_drawString f)
  | _ => exact .ofExcept (Settled.pure _)

end Metafile.Plus
