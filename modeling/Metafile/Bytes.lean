/-! Byte buffers and the little-endian fields inside them. A field that does not
lie inside the buffer as a whole reads as zero, so no value is ever built from
a part of a field. -/

namespace Metafile

abbrev Bytes := Array UInt8

/-- The number whose base-256 digits are given, lowest digit first. -/
def littleEndian : List UInt8 → Nat
  | [] => 0
  | byte :: rest => byte.toNat + 256 * littleEndian rest

/-- The two's complement reading of a number below `2 ^ bits`. -/
def signed (bits value : Nat) : Int :=
  if value < 1 <<< (bits - 1) then value else (value : Int) - (1 <<< bits : Nat)

namespace Bytes

/-- The unsigned field of `width` bytes at `start`, or zero if it does not fit. -/
def field (data : Bytes) (start width : Nat) : Nat :=
  if start + width ≤ data.size then
    littleEndian (data.extract start (start + width)).toList
  else 0

/-- The byte at `start`. -/
def u8At (data : Bytes) (start : Nat) : Nat := data.field start 1

/-- The 16-bit field at `start`, unsigned. -/
def u16At (data : Bytes) (start : Nat) : Nat := data.field start 2

/-- The 32-bit field at `start`, unsigned. -/
def u32At (data : Bytes) (start : Nat) : Nat := data.field start 4

/-- The 16-bit field at `start`, signed. -/
def i16At (data : Bytes) (start : Nat) : Int := signed 16 (data.u16At start)

/-- The 32-bit field at `start`, signed. -/
def i32At (data : Bytes) (start : Nat) : Int := signed 32 (data.u32At start)

/-- The binary32 field at `start`; zero bits are the number zero. -/
def f32At (data : Bytes) (start : Nat) : Float32 :=
  Float32.ofBits (UInt32.ofNat (data.u32At start))

/-- At most `count` bytes from `start`, fewer where the buffer ends. -/
def slice (data : Bytes) (start count : Nat) : Bytes := data.extract start (start + count)

/-- A slice with a start and a length holds the bytes between its two ends. -/
theorem slice_eq_extract (data : Bytes) {start count stop : Nat} (hStop : start + count = stop) :
    data.slice start count = data.extract start stop := by
  rw [slice, hStop]

/-- A field that reaches past the end of the data is read as zero, however many of its bytes are
there. -/
theorem field_eq_zero {data : Bytes} {start width : Nat} (hPast : data.size < start + width) :
    data.field start width = 0 := by
  simp [field, Nat.not_le.2 hPast]

/-- A field that is inside a buffer keeps its value when bytes are added behind. -/
theorem field_append {data : Bytes} {start width : Nat} (hFits : start + width ≤ data.size)
    (extra : Bytes) : Bytes.field (data ++ extra) start width = data.field start width := by
  have hWhole : start + width ≤ (data ++ extra).size := by
    simp only [Array.size_append]
    omega
  simp only [field, hFits, hWhole, if_true]
  have hNone : start + width - data.size = 0 := by omega
  rw [Array.extract_append, hNone, Array.extract_zero, Array.append_empty]

end Bytes

end Metafile
