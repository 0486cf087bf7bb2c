import Metafile.Proofs.Wmf.Chain

/-! The headers of WMF files. A file can be read just if its headers are whole, and all
that is read of them lies in their fixed fields. -/

namespace Metafile.Wmf

/-- Where the standard header begins. -/
def Header.start (placed : Bool) : Nat := if placed then 22 else 0

/-- The header that is read from a file, with the placeable one in front if there is
said to be one. -/
def Header.ofFile (placed : Bool) (data : Bytes) : Header :=
  .read (if placed then some (Placeable.read data) else none) data (Header.start placed)

/-- A file can be read just if its headers are there as a whole and the standard one
does not declare that it has no words. Its records are looked for behind them. -/
theorem File.decode_eq_ok_iff {placed : Bool} {limit : Nat} {data : Bytes} {file : File} :
    (File.decode placed limit data).result = .ok file ↔
      Header.start placed + 18 ≤ data.size ∧ (Header.ofFile placed data).headerSizeWords ≠ 0 ∧
        ⟨Header.ofFile placed data, walk data.size (recordAt data) resync (Header.start placed +
          max 18 (2 * (Header.ofFile placed data).headerSizeWords)) limit⟩ = file := by
  have hStart : (if placed = true then Placeable.size else 0) = Header.start placed := rfl
  have hHeader : Header.read (if placed = true then some (Placeable.read data) else none) data
      (Header.start placed) = Header.ofFile placed data := rfl
  simp only [File.decode, hStart, hHeader]
  split
  case isTrue hShort =>
    have hNoRoom : ¬Header.start placed + 18 ≤ data.size := by
      obtain ⟨rfl, hSize⟩ := Bool.and_eq_true_iff.1 hShort
      have hSize' : data.size < 22 := of_decide_eq_true hSize
      simp only [Header.start, if_true]
      omega
    simp [Report.fail, hNoRoom]
  case isFalse hPlaced =>
    split
    case isTrue hShort =>
      have hNoRoom : ¬Header.start placed + 18 ≤ data.size := Nat.not_le.2 hShort
      simp [Report.fail, hNoRoom]
    case isFalse hRoom =>
      have hRoom' : Header.start placed + 18 ≤ data.size := Nat.not_lt.1 hRoom
      split
      case isTrue hNone => simp [Report.fail, hNone]
      case isFalse hWords => simp [Report.done, hWords, hRoom', Header.size]

/-- All that is read of the headers lies in the front of a file that has room for
them. -/
theorem Header.ofFile_append {placed : Bool} {front : Bytes}
    (hRoom : Header.start placed + 18 ≤ front.size) (back : Bytes) :
    Header.ofFile placed (front ++ back) = Header.ofFile placed front := by
  have hField : ∀ start width, start + width ≤ Header.start placed + 18 →
      Bytes.field (front ++ back) start width = front.field start width :=
    fun start width hFits => Bytes.field_append (by omega) back
  cases placed with
  | false =>
      simp (disch := decide) only [Header.ofFile, Header.read, Header.start, Bytes.u32At,
        Bytes.u16At, hField, Bool.false_eq_true, if_false]
  | true =>
      simp (disch := decide) only [Header.ofFile, Header.read, Header.start, Placeable.read,
        Bytes.u32At, Bytes.u16At, Bytes.i16At, hField, if_true]

end Metafile.Wmf
