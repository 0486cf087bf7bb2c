import Mathlib.Algebra.Order.Group.Nat
import Mathlib.Tactic.Ring
import Metafile.Proofs.Bytes.Part

/-! Fields one behind the other, as in the fixed parts of headers. Each field is
read back from the place that the widths of the fields before it give, and
signed numbers are read back from their two's complement. -/

namespace Metafile

/-- Bytes behind others count for more than these by a power of 256 for each of them. -/
theorem littleEndian_append (first second : List UInt8) :
    littleEndian (first ++ second) =
      littleEndian first + 256 ^ first.length * littleEndian second := by
  induction first with
  | nil => simp [littleEndian]
  | cons byte rest ih =>
      simp only [List.cons_append, littleEndian, ih, List.length_cons, Nat.pow_succ]
      ring

/-- The number below `2 ^ bits` that a signed number is stored as. -/
def twosComplement (bits : Nat) (value : Int) : Nat := (value % (2 ^ bits : Nat)).toNat

/-- A signed value is stored in as many bits as it is given, also if it has no room there. -/
theorem twosComplement_lt (bits : Nat) (value : Int) : twosComplement bits value < 2 ^ bits := by
  have hPositive : (0 : Int) < (2 ^ bits : Nat) := Int.natCast_pos.2 (Nat.two_pow_pos bits)
  have hLess := Int.emod_lt_of_pos value hPositive
  have hNonneg := Int.emod_nonneg value (ne_of_gt hPositive)
  unfold twosComplement
  omega

/-- A signed number keeps its value when it is stored and read, if it has room. -/
theorem signed_twosComplement {bits : Nat} {value : Int} (hBits : 0 < bits)
    (hLow : -(2 ^ (bits - 1) : Nat) ≤ value) (hHigh : value < (2 ^ (bits - 1) : Nat)) :
    signed bits (twosComplement bits value) = value := by
  have hDouble : 2 ^ bits = 2 * 2 ^ (bits - 1) := by
    rw [← Nat.pow_succ', Nat.succ_eq_add_one, Nat.sub_add_cancel hBits]
  rw [signed, twosComplement, Nat.one_shiftLeft, Nat.one_shiftLeft, hDouble]
  generalize 2 ^ (bits - 1) = half at hLow hHigh
  rcases Int.lt_or_le value 0 with hNegative | hPositive
  · have hRest : value % (2 * half : Nat) = value + (2 * half : Nat) := by
      rw [← Int.add_emod_right]
      exact Int.emod_eq_of_lt (by omega) (by omega)
    rw [hRest, if_neg (by omega)]
    omega
  · have hRest : value % (2 * half : Nat) = value := Int.emod_eq_of_lt hPositive (by omega)
    rw [hRest, if_pos (by omega)]
    omega

/-- What is read as a signed number is stored as it was. -/
theorem twosComplement_signed {bits value : Nat} (hValue : value < 2 ^ bits) :
    twosComplement bits (signed bits value) = value := by
  have hWhole : (value : Int) < (2 ^ bits : Nat) := Int.ofNat_lt.2 hValue
  have hRest : ((value : Int) - (2 ^ bits : Nat)) % (2 ^ bits : Nat) = value := by
    rw [Int.sub_emod_right]
    exact Int.emod_eq_of_lt (Int.natCast_nonneg value) hWhole
  rw [signed, twosComplement, Nat.one_shiftLeft, Nat.one_shiftLeft]
  split
  case isTrue => rw [Int.emod_eq_of_lt (Int.natCast_nonneg value) hWhole, Int.toNat_natCast]
  case isFalse => rw [hRest, Int.toNat_natCast]

namespace Bytes

/-- A field is made of two narrower ones, the first of which has its low digits. -/
theorem field_add {data : Bytes} {start first second : Nat}
    (hFits : start + (first + second) ≤ data.size) :
    data.field start (first + second) =
      data.field start first + 256 ^ first * data.field (start + first) second := by
  have hFirst : start + first ≤ data.size := by omega
  have hSecond : start + first + second ≤ data.size := by omega
  have hLength : (data.extract start (start + first)).toList.length = first := by
    rw [Array.length_toList, Array.size_extract]
    omega
  have hBytes : data.extract start (start + (first + second)) =
      data.extract start (start + first) ++
        data.extract (start + first) (start + first + second) := by
    rw [Array.extract_append_extract, Nat.min_eq_left (Nat.le_add_right _ _),
      Nat.max_eq_right (Nat.le_add_right _ _), Nat.add_assoc]
  rw [field, field, field, if_pos hFits, if_pos hFirst, if_pos hSecond, hBytes, Array.toList_append,
    littleEndian_append, hLength]

/-- A number below the sign bit is read as it is. -/
theorem i16At_of_field {data : Bytes} {start value : Nat} (hValue : value < 2 ^ 15)
    (hField : data.field start 2 = value) : data.i16At start = value := by
  have hWord : data.u16At start = value := hField
  rw [i16At, hWord, signed, if_pos (by simpa using hValue)]

/-- A number and how many bytes it is stored in. -/
structure Field where
  width : Nat
  value : Nat
deriving Repr, DecidableEq

/-- The value is one that the field can hold. -/
def Field.Fits (f : Field) : Prop := f.value < 256 ^ f.width

instance (f : Field) : Decidable f.Fits := inferInstanceAs (Decidable (f.value < 256 ^ f.width))

/-- The bytes of fields one behind the other. -/
def ofFields : List Field → Bytes
  | [] => #[]
  | f :: rest => ofNat f.width f.value ++ ofFields rest

/-- The fields are read one behind the other from a place on. -/
def HoldsFields (data : Bytes) : Nat → List Field → Prop
  | _, [] => True
  | start, f :: rest => data.field start f.width = f.value ∧ HoldsFields data (start + f.width) rest

/-- Fields one behind the other take as many bytes as their widths add up to, whatever their
values are. -/
theorem size_ofFields (fields : List Field) :
    (ofFields fields).size = (fields.map Field.width).sum := by
  induction fields with
  | nil => rfl
  | cons f rest ih => rw [ofFields, Array.size_append, size_ofNat, ih, List.map_cons, List.sum_cons]

/-- Data hold two groups of fields just if they hold the first one and the second one behind it.
Layouts are taken apart in this way. -/
theorem holdsFields_append {data : Bytes} {start : Nat} {first second : List Field} :
    data.HoldsFields start (first ++ second) ↔
      data.HoldsFields start first ∧
        data.HoldsFields (start + (first.map Field.width).sum) second := by
  induction first generalizing start with
  | nil => simp [HoldsFields]
  | cons f rest ih => simp [HoldsFields, ih, and_assoc, Nat.add_assoc]

/-- Where fields are laid out, they are read back. -/
theorem HasPart.holdsFields {data : Bytes} {start : Nat} {fields : List Field}
    (hPart : data.HasPart start (ofFields fields)) (hFits : ∀ f ∈ fields, f.Fits) :
    data.HoldsFields start fields := by
  induction fields generalizing start with
  | nil => trivial
  | cons f rest ih =>
      obtain ⟨hFirst, hRest⟩ := List.forall_mem_cons.1 hFits
      rw [ofFields] at hPart
      refine ⟨hPart.left.field_ofNat hFirst, ih ?_ hRest⟩
      simpa using hPart.right

end Bytes

end Metafile
