import Metafile.Proofs.Svg.Markup
import Metafile.Svg.Shape

/-! Left angle brackets in the elements of shapes. Numbers, points and colours are written
without any, so that only texts and families bring brackets of their own. -/

namespace Metafile

open Svg

namespace Decimal

/-- No decimal digit is a left angle bracket. All numbers in a drawing are written with digits
and a few signs. -/
theorem angles_repr (n : Nat) : angles n.repr = 0 := by
  rw [angles_eq_zero_iff, Nat.toList_repr]
  intro hMem
  have hDigit : '<'.isDigit := Nat.isDigit_of_mem_toDigits (by decide) (by decide) hMem
  exact absurd hDigit (by decide)

theorem angles_zeros (count : Nat) : angles (zeros count) = 0 := by
  rw [angles_eq_zero_iff, zeros, String.toList_ofList]
  intro hMem
  exact absurd (List.eq_of_mem_replicate hMem) (by decide)

/-- A decimal number has none, wherever its point stands and however many zeros fill it up. -/
theorem angles_positional (d : Decimal) : angles d.positional = 0 := by
  dsimp only [positional]
  split
  · split
    · rfl
    · rw [angles_append, angles_repr, angles_zeros]
  · have hDigits : angles (zeros ((-d.exponent).toNat + 1 - d.digits.repr.length) ++
        d.digits.repr) = 0 := by
      rw [angles_append, angles_zeros, angles_repr]
    have hPoint : angles "." = 0 := rfl
    rw [angles_append, angles_append, hPoint, angles_ofList_of_subset (List.take_subset ..) hDigits,
      angles_ofList_of_subset (List.drop_subset ..) hDigits]

/-- So no float is written with one, in any binary format. Infinities and what is not a number
are words without brackets. -/
theorem angles_textOfBits (format : BinaryFormat) (bits : Nat) :
    angles (textOfBits format bits) = 0 := by
  have hSign : ∀ negative : Bool, angles (if negative then "-" else "") = 0 := by decide
  have hWords : angles "inf" = 0 ∧ angles "NaN" = 0 ∧ angles "0" = 0 := by decide
  obtain ⟨hInf, hNaN, hZero⟩ := hWords
  have hShortest : ∀ decimal? : Option Decimal, angles (decimal?.elim "" positional) = 0 := by
    intro decimal?
    cases decimal? with
    | none => rfl
    | some decimal => exact angles_positional decimal
  dsimp only [textOfBits]
  split
  · split
    · rw [angles_append, hSign, hInf]
    · exact hNaN
  · split
    · rw [angles_append, hSign, hZero]
    · rw [angles_append, hSign, hShortest]

@[simp]
theorem angles_text (x : Float) : angles (text x) = 0 := angles_textOfBits ..

@[simp]
theorem angles_text32 (x : Float32) : angles (text32 x) = 0 := angles_textOfBits ..

end Decimal

/-- A colour is written in hexadecimal digits or in numbers. -/
theorem Color.angles_css (c : Color) : angles c.css = 0 := by
  have hByte : ∀ byte < 256, '<' ∉ Text.hexDigits 2 byte := by decide +kernel
  have hMarks : angles "#" = 0 ∧ angles "rgba(" = 0 ∧ angles "," = 0 ∧ angles ")" = 0 := by
    decide
  obtain ⟨hHash, hRgba, hComma, hClose⟩ := hMarks
  dsimp only [css]
  split
  · rw [angles_append, hHash, Nat.zero_add, angles_eq_zero_iff, String.toList_ofList]
    intro hMem
    obtain ⟨byte, -, hDigit⟩ := List.mem_flatMap.1 hMem
    exact hByte byte.toNat byte.toNat_lt hDigit
  · simp [hRgba, hComma, hClose, Decimal.angles_repr]

namespace Svg

@[simp]
theorem angles_paint (color : Color) : angles (paint color) = 0 := by
  unfold paint
  split
  · rfl
  · exact color.angles_css

@[simp]
theorem angles_pointText (p : Point Float) : angles (pointText p) = 0 := by
  have hComma : angles "," = 0 := rfl
  simp [pointText, hComma]

@[simp]
theorem angles_segment (s : Segment) : angles s.text = 0 := by
  have hLetters : angles "M" = 0 ∧ angles "L" = 0 := by decide
  cases s <;> simp [Segment.text, hLetters]

/-- Words with blanks between them have none if the words do not. -/
theorem angles_spaced {words : List String} (hWords : ∀ word ∈ words, angles word = 0) :
    angles (spaced words) = 0 := by
  rw [spaced, angles_intercalate rfl]
  exact angles_join_eq_zero_iff.2 hWords

end Svg

end Metafile
