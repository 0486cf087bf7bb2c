import Mathlib.Algebra.Group.Int.Defs
import Mathlib.Algebra.Group.Nat.Defs
import Metafile.Bytes

/-! Parts of a buffer, and the bytes that a number is written with. A part of a
part is a part of the whole, and fields of it are fields of the whole further
on, so what is read from a part can be found again in the file. -/

namespace Metafile

/-- So many bytes cannot make a number with more digits in base 256. -/
theorem littleEndian_lt (bytes : List UInt8) : littleEndian bytes < 256 ^ bytes.length := by
  induction bytes with
  | nil => simp [littleEndian]
  | cons byte rest ih =>
      have hByte := byte.toNat_lt
      simp only [littleEndian, List.length_cons, Nat.pow_succ]
      omega

/-- The lowest digits of a number in base 256, lowest digit first. -/
def littleEndianDigits : Nat → Nat → List UInt8
  | 0, _ => []
  | width + 1, value => UInt8.ofNat value :: littleEndianDigits width (value / 256)

/-- A number is written in exactly as many digits as asked for, with zeros if it is small and cut
off if it is large. -/
@[simp]
theorem length_littleEndianDigits (width value : Nat) :
    (littleEndianDigits width value).length = width := by
  induction width generalizing value with
  | zero => rfl
  | succ width ih => rw [littleEndianDigits, List.length_cons, ih]

/-- A number that has room in the digits is read back from them. -/
theorem littleEndian_littleEndianDigits {width value : Nat} (hValue : value < 256 ^ width) :
    littleEndian (littleEndianDigits width value) = value := by
  induction width generalizing value with
  | zero =>
      rw [Nat.pow_zero] at hValue
      rw [littleEndianDigits, littleEndian]
      omega
  | succ width ih =>
      have hRest : value / 256 < 256 ^ width := by
        rw [Nat.pow_succ] at hValue
        omega
      have hDigit : (UInt8.ofNat value).toNat = value % 256 := UInt8.toNat_ofNat'
      rw [littleEndianDigits, littleEndian, ih hRest, hDigit]
      omega

/-- As many digits with the same value are the same digits. -/
theorem littleEndian_inj {first second : List UInt8} (hLength : first.length = second.length) :
    littleEndian first = littleEndian second ↔ first = second := by
  refine ⟨fun hValue => ?_, congrArg littleEndian⟩
  induction first generalizing second with
  | nil => exact (List.eq_nil_of_length_eq_zero hLength.symm).symm
  | cons byte rest ih =>
      cases second with
      | nil => cases hLength
      | cons other others =>
          simp only [littleEndian] at hValue
          have hByte := byte.toNat_lt
          have hOther := other.toNat_lt
          have hRest := ih (Nat.succ.inj hLength) (by omega)
          rw [hRest, UInt8.toNat_inj.1 (show byte.toNat = other.toNat by omega)]

namespace Bytes

/-- What is read from a field has room in it, even where the field reaches past the end. -/
theorem field_lt (data : Bytes) (start width : Nat) : data.field start width < 256 ^ width := by
  unfold field
  split
  case isTrue hFits =>
    have hLt := littleEndian_lt (data.extract start (start + width)).toList
    have hSize : (data.extract start (start + width)).toList.length = width := by
      simp only [Array.length_toList, Array.size_extract]
      omega
    rwa [hSize] at hLt
  case isFalse => exact Nat.pow_pos (by decide)

/-- A stretch that ends inside the front of a buffer keeps its bytes when more are added
behind. -/
theorem extract_append {front : Bytes} {start stop : Nat} (hStop : stop ≤ front.size)
    (back : Bytes) : (front ++ back).extract start stop = front.extract start stop := by
  have hNone : stop - front.size = 0 := by omega
  rw [Array.extract_append, hNone, Array.extract_zero, Array.append_empty]

/-- A field that fits has the value of some bytes just if it consists of them. -/
theorem field_eq_littleEndian_iff {data : Bytes} {start width : Nat} {bytes : List UInt8}
    (hFits : start + width ≤ data.size) (hLength : bytes.length = width) :
    data.field start width = littleEndian bytes ↔
      data.extract start (start + width) = bytes.toArray := by
  have hSame : (data.extract start (start + width)).toList.length = bytes.length := by
    rw [Array.length_toList, Array.size_extract, hLength]
    omega
  rw [field, if_pos hFits, littleEndian_inj hSame, ← Array.toList_inj]

/-- A number as a field of `width` bytes. -/
def ofNat (width value : Nat) : Bytes := (littleEndianDigits width value).toArray

/-- A number takes as many bytes as it is given. -/
@[simp]
theorem size_ofNat (width value : Nat) : (ofNat width value).size = width := by
  simp [ofNat]

/-- The bytes of `part` are in the buffer, from `start` on. -/
def HasPart (data : Bytes) (start : Nat) (part : Bytes) : Prop :=
  ∃ front back : Bytes, data = front ++ part ++ back ∧ front.size = start

variable {data part : Bytes} {start : Nat}

theorem hasPart_self (data : Bytes) : data.HasPart 0 data :=
  ⟨#[], #[], by simp, rfl⟩

/-- What is cut out between two positions inside the data stands at the first of these. -/
theorem hasPart_extract {stop : Nat} (hOrder : start ≤ stop) (hStop : stop ≤ data.size) :
    data.HasPart start (data.extract start stop) := by
  refine ⟨data.extract 0 start, data.extract stop data.size, ?_, ?_⟩
  · simp [Array.extract_append_extract, hOrder, hStop]
  · rw [Array.size_extract]
    omega

namespace HasPart

/-- A part ends inside the data, so that fields in it can be read there. -/
theorem end_le (hPart : data.HasPart start part) : start + part.size ≤ data.size := by
  obtain ⟨front, back, rfl, rfl⟩ := hPart
  simp only [Array.size_append]
  omega

/-- Of two pieces that stand one behind the other the first stands where both of them start. -/
theorem left {first second : Bytes} (hPart : data.HasPart start (first ++ second)) :
    data.HasPart start first := by
  obtain ⟨front, back, rfl, hFront⟩ := hPart
  exact ⟨front, second ++ back, by simp only [Array.append_assoc], hFront⟩

/-- And the second of them stands behind as many bytes as the first one has. -/
theorem right {first second : Bytes} (hPart : data.HasPart start (first ++ second)) :
    data.HasPart (start + first.size) second := by
  obtain ⟨front, back, rfl, rfl⟩ := hPart
  exact ⟨front ++ first, back, by simp only [Array.append_assoc], Array.size_append⟩

/-- A part of a part is a part, with the two offsets taken together. Nested layouts are read in
this way. -/
theorem trans {inner : Bytes} {offset : Nat} (hPart : data.HasPart start part)
    (hInner : part.HasPart offset inner) : data.HasPart (start + offset) inner := by
  obtain ⟨front, back, rfl, rfl⟩ := hPart
  obtain ⟨front', back', rfl, rfl⟩ := hInner
  exact ⟨front ++ front', back' ++ back, by simp only [Array.append_assoc], Array.size_append⟩

/-- A stretch of a part is the stretch of the whole at the same distance from its
start. -/
theorem extract_eq {stop : Nat} (hPart : data.HasPart start part) (first : Nat)
    (hStop : stop ≤ part.size) :
    data.extract (start + first) (start + stop) = part.extract first stop := by
  obtain ⟨front, back, rfl, rfl⟩ := hPart
  have hFront : front.extract (front.size + first) (front.size + stop) = #[] :=
    Array.extract_empty_of_size_le_start (by omega)
  have hBack : back.extract (front.size + first - (front.size + part.size))
      (front.size + stop - (front.size + part.size)) = #[] := by
    rw [show front.size + stop - (front.size + part.size) = 0 by omega, Array.extract_zero]
  rw [Array.extract_append, Array.extract_append, Array.size_append, hFront, hBack]
  simp

/-- The stretch that a part takes up is the part. -/
theorem slice_eq (hPart : data.HasPart start part) : data.slice start part.size = part := by
  have hWhole := hPart.extract_eq 0 (Nat.le_refl part.size)
  rwa [Nat.add_zero, Array.extract_size] at hWhole

/-- A field inside a part is read in the data as it is read in the part alone. Nothing around the
part matters to it. -/
theorem field_eq {offset width : Nat} (hPart : data.HasPart start part)
    (hFits : offset + width ≤ part.size) :
    data.field (start + offset) width = part.field offset width := by
  have hWhole : start + offset + width ≤ data.size := by
    have hEnd := hPart.end_le
    omega
  rw [field, field, if_pos hFits, if_pos hWhole, Nat.add_assoc, hPart.extract_eq offset hFits]

/-- A number that was stored with enough room is read back where it stands. -/
theorem field_ofNat {width value : Nat} (hPart : data.HasPart start (ofNat width value))
    (hValue : value < 256 ^ width) : data.field start width = value := by
  have hFits : 0 + width ≤ (ofNat width value).size := by simp
  have hAll : (ofNat width value).extract 0 width = ofNat width value :=
    Array.extract_eq_self_of_le (by simp)
  rw [← Nat.add_zero start, hPart.field_eq hFits, field, if_pos hFits, Nat.zero_add, hAll]
  exact littleEndian_littleEndianDigits hValue

theorem u16At_eq {value : Nat} (hPart : data.HasPart start (ofNat 2 value))
    (hValue : value < 2 ^ 16) : data.u16At start = value := hPart.field_ofNat hValue

theorem u32At_eq {value : Nat} (hPart : data.HasPart start (ofNat 4 value))
    (hValue : value < 2 ^ 32) : data.u32At start = value := hPart.field_ofNat hValue

end HasPart

end Bytes

end Metafile
