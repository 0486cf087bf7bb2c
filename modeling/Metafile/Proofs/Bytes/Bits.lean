import Mathlib.Data.Nat.Bitwise
import Metafile.Proofs.Bytes.Fields

/-! Single bits of a buffer, and the exclusive or of its 16-bit words. A bit that is flipped changes
the one word that it is in by its own value, so the exclusive or of the words changes by it too. -/

namespace Metafile

/-- Digits are combined one by one, without carrying anything over to the next. -/
theorem two_pow_mul_add_xor {i x y x' y' : Nat} (hx : x < 2 ^ i) (hx' : x' < 2 ^ i) :
    (2 ^ i * y + x) ^^^ (2 ^ i * y' + x') = 2 ^ i * (y ^^^ y') + (x ^^^ x') := by
  refine Nat.eq_of_testBit_eq fun j => ?_
  rw [Nat.testBit_xor, Nat.testBit_two_pow_mul_add _ hx, Nat.testBit_two_pow_mul_add _ hx',
    Nat.testBit_two_pow_mul_add _ (Nat.xor_lt_two_pow hx hx')]
  split
  case isTrue => exact Nat.testBit_xor .. |>.symm
  case isFalse => exact Nat.testBit_xor .. |>.symm

/-- The bit with a number, as the part of it in one digit. It is none in all other digits. -/
def bitIn (width bit place : Nat) : Nat := if bit / width = place then 2 ^ (bit % width) else 0

/-- A single bit has room in a word, whatever word it stands in. -/
theorem bitIn_lt {width : Nat} (hWidth : 0 < width) (bit place : Nat) :
    bitIn width bit place < 2 ^ width := by
  unfold bitIn
  split
  case isTrue => exact Nat.pow_lt_pow_right (by decide) (Nat.mod_lt _ hWidth)
  case isFalse => exact Nat.two_pow_pos width

/-- The bit of a word is one of a byte of it. -/
theorem bitIn_word (bit place : Nat) :
    2 ^ 8 * bitIn 8 bit (2 * place + 1) + bitIn 8 bit (2 * place) = bitIn 16 bit place := by
  unfold bitIn
  rcases Nat.lt_or_ge (bit % 16) 8 with hLow | hHigh
  · have hByte : bit % 16 = bit % 8 := by omega
    have hFirst : bit / 8 = 2 * place ↔ bit / 16 = place := by omega
    rw [if_neg (by omega), Nat.mul_zero, Nat.zero_add, hByte]
    simp only [hFirst]
  · have hByte : bit % 16 = 8 + bit % 8 := by omega
    have hSecond : bit / 8 = 2 * place + 1 ↔ bit / 16 = place := by omega
    rw [if_neg (show ¬bit / 8 = 2 * place by omega), Nat.add_zero, hByte, Nat.pow_add, mul_ite,
      Nat.mul_zero]
    simp only [hSecond]

namespace Bytes

/-- The buffer with one bit changed. Bits are counted from the lowest one of the first byte on. -/
def flipBit (data : Bytes) (bit : Nat) : Bytes :=
  data.modify (bit / 8) (· ^^^ UInt8.ofNat (2 ^ (bit % 8)))

/-- The exclusive or of the first words. -/
def wordXor (data : Bytes) (count : Nat) : Nat :=
  ((List.range count).map fun i => data.u16At (2 * i)).foldl Nat.xor 0

/-- The buffers are of one size and have the same bytes from a place on. -/
structure SameFrom (first : Nat) (data other : Bytes) : Prop where
  size_eq : data.size = other.size
  getElem?_eq : ∀ i, first ≤ i → data[i]? = other[i]?

namespace SameFrom

variable {first start : Nat} {data other : Bytes} (hSame : SameFrom first data other)
  (hStart : first ≤ start)

include hSame hStart

/-- Data that are the same from a position on have the same part there, up to any end. -/
theorem extract_eq (stop : Nat) : data.extract start stop = other.extract start stop := by
  refine Array.ext_getElem? fun i => ?_
  rw [Array.getElem?_extract, Array.getElem?_extract, hSame.size_eq,
    hSame.getElem?_eq (start + i) (by omega)]

/-- The same holds for numbers that are read at this position or behind it. -/
theorem field_eq (width : Nat) : data.field start width = other.field start width := by
  rw [field, field, hSame.size_eq, hSame.extract_eq hStart]

end SameFrom

/-- A byte inside the data is read as it is. -/
theorem u8At_of_lt {data : Bytes} {start : Nat} (hInside : start < data.size) :
    data.u8At start = data[start].toNat := by
  have hNone : data.extract start start = #[] := by
    rw [Array.extract_eq_empty_iff]
    exact Nat.min_le_left start data.size
  rw [u8At, field, if_pos (show start + 1 ≤ data.size from hInside),
    Array.extract_succ_right (Nat.lt_succ_self start) hInside, hNone]
  rfl

/-- A word that fits is made of its two bytes, the low one first. The two are kept apart so that
a bit in either of them can be followed into the word. -/
theorem u16At_eq {data : Bytes} {start : Nat} (hFits : start + 2 ≤ data.size) :
    data.u16At start = 2 ^ 8 * data.u8At (start + 1) + data.u8At start := by
  rw [u16At, show 2 = 1 + 1 from rfl, field_add hFits, Nat.add_comm]
  rfl

variable (data : Bytes) (bit : Nat)

/-- No byte is added or lost when a bit is turned over. -/
@[simp]
theorem size_flipBit : (data.flipBit bit).size = data.size := Array.size_modify

/-- What is behind the byte of a bit stays as it is. -/
theorem sameFrom_flipBit {first : Nat} (hBefore : bit / 8 < first) :
    SameFrom first (data.flipBit bit) data where
  size_eq := data.size_flipBit bit
  getElem?_eq i hBehind := by
    rw [flipBit, Array.getElem?_modify, if_neg (by omega)]

variable {data}

/-- Of all bytes only the one with the bit is changed, and in it only this bit. -/
theorem u8At_flipBit {start : Nat} (hInside : start < data.size) :
    (data.flipBit bit).u8At start = data.u8At start ^^^ bitIn 8 bit start := by
  rw [u8At_of_lt hInside, u8At_of_lt (by rwa [size_flipBit])]
  have hDigit : 2 ^ (bit % 8) < 2 ^ 8 :=
    Nat.pow_lt_pow_right (by decide) (Nat.mod_lt _ (by decide))
  simp only [flipBit, Array.getElem_modify, bitIn]
  split
  case isTrue => rw [UInt8.toNat_xor, UInt8.toNat_ofNat', Nat.mod_eq_of_lt hDigit]
  case isFalse => rw [Nat.xor_zero]

/-- Of the words of a buffer the one with the bit in it is changed. -/
theorem u16At_flipBit {i : Nat} (hFits : 2 * i + 2 ≤ data.size) :
    (data.flipBit bit).u16At (2 * i) = data.u16At (2 * i) ^^^ bitIn 16 bit i := by
  rw [u16At_eq hFits, u16At_eq (by rwa [size_flipBit]), u8At_flipBit bit (by omega),
    u8At_flipBit bit (by omega), ← bitIn_word,
    two_pow_mul_add_xor (field_lt data (2 * i) 1) (bitIn_lt (by decide) bit (2 * i))]

/-- One word more is taken into the sum. This is the step for every fact on checksums below. -/
theorem wordXor_succ (data : Bytes) (count : Nat) :
    data.wordXor (count + 1) = data.wordXor count ^^^ data.u16At (2 * count) := by
  rw [wordXor, List.range_succ, List.map_append, List.foldl_append]
  rfl

/-- The exclusive or changes by the bit if this is in one of the words. -/
theorem wordXor_flipBit {count : Nat} (hFits : 2 * count ≤ data.size) :
    (data.flipBit bit).wordXor count =
      data.wordXor count ^^^ if bit < 16 * count then 2 ^ (bit % 16) else 0 := by
  induction count with
  | zero => simp [wordXor]
  | succ count ih =>
      rw [wordXor_succ, wordXor_succ, ih (by omega), u16At_flipBit bit (by omega)]
      have hWords : (if bit < 16 * count then 2 ^ (bit % 16) else 0) ^^^ bitIn 16 bit count =
          if bit < 16 * (count + 1) then 2 ^ (bit % 16) else 0 := by
        unfold bitIn
        rcases Nat.lt_trichotomy (bit / 16) count with hLess | hHere | hBehind
        · rw [if_pos (by omega), if_neg (by omega), if_pos (by omega), Nat.xor_zero]
        · rw [if_neg (by omega), if_pos hHere, if_pos (by omega), Nat.zero_xor]
        · rw [if_neg (by omega), if_neg (by omega), if_neg (by omega), Nat.xor_zero]
      rw [← hWords]
      ac_rfl

end Bytes

end Metafile
