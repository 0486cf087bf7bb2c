import Metafile.Bytes

/-! A reading position in a byte buffer. Every move is clamped to the end of
the buffer, which the type records, so the bytes that remain can always be
counted. -/

namespace Metafile

/-- A buffer with a position that never lies past its end. -/
structure Cursor where
  data : Bytes
  position : Nat
  position_le : position ≤ data.size

namespace Cursor

def ofBytes (data : Bytes) : Cursor := ⟨data, 0, Nat.zero_le _⟩

/-- How many bytes lie between the position and the end. -/
def remaining (c : Cursor) : Nat := c.data.size - c.position

/-- Move to an absolute position, or to the end if that comes first. -/
def seek (c : Cursor) (target : Nat) : Cursor :=
  ⟨c.data, min target c.data.size, Nat.min_le_right _ _⟩

/-- Move `count` bytes ahead, or to the end if that comes first. -/
def skip (c : Cursor) (count : Nat) : Cursor := c.seek (c.position + count)

/-- A field read at the position moves it by the width of the field, also when
the field does not fit and its value is therefore zero. -/
def readField {α : Type} (c : Cursor) (width : Nat) (value : Bytes → Nat → α) : α × Cursor :=
  (value c.data c.position, c.skip width)

def readU8 (c : Cursor) : Nat × Cursor := c.readField 1 Bytes.u8At

def readU16 (c : Cursor) : Nat × Cursor := c.readField 2 Bytes.u16At

def readU32 (c : Cursor) : Nat × Cursor := c.readField 4 Bytes.u32At

def readI16 (c : Cursor) : Int × Cursor := c.readField 2 Bytes.i16At

def readI32 (c : Cursor) : Int × Cursor := c.readField 4 Bytes.i32At

def readF32 (c : Cursor) : Float32 × Cursor := c.readField 4 Bytes.f32At

/-- At most `count` bytes from the position, fewer at the end of the buffer. -/
def readBytes (c : Cursor) (count : Nat) : Bytes × Cursor :=
  (c.data.slice c.position count, c.skip count)

/-- Moving a cursor never changes the bytes below it, and neither does skipping some of them. -/
@[simp]
theorem data_seek (c : Cursor) (target : Nat) : (c.seek target).data = c.data := rfl

/-- A cursor never stands behind the end of its data, wherever it is sent to. -/
@[simp]
theorem position_seek (c : Cursor) (target : Nat) :
    (c.seek target).position = min target c.data.size := rfl

@[simp]
theorem data_skip (c : Cursor) (count : Nat) : (c.skip count).data = c.data := rfl

/-- The same holds if it is moved on from where it stands, by however many bytes. -/
@[simp]
theorem position_skip (c : Cursor) (count : Nat) :
    (c.skip count).position = min (c.position + count) c.data.size := rfl

end Cursor

end Metafile
