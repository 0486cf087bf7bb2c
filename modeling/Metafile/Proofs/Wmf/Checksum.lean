import Metafile.Proofs.Bytes.Bits
import Metafile.Proofs.Wmf.Headers

/-! The checksum of a placeable header. Main statement: what is computed from the fields of the
header is the exclusive or of the words that they were read from, and a bit that is flipped in a
header with the right checksum is noticed and damages nothing else. -/

namespace Metafile.Wmf

/-- A signed field gives back the word that it was read from. -/
theorem Placeable.word_i16At (data : Bytes) (start : Nat) :
    word (data.i16At start) = data.u16At start :=
  twosComplement_signed (Bytes.field_lt data start 2)

/-- A long field is made of two words. -/
theorem u32At_words {data : Bytes} {start : Nat} (hFits : start + 4 ≤ data.size) :
    data.u32At start % 0x10000 = data.u16At start ∧
      data.u32At start / 0x10000 = data.u16At (start + 2) := by
  have hWords : data.u32At start = data.u16At start + 0x10000 * data.u16At (start + 2) :=
    @Bytes.field_add data start 2 2 hFits
  have hLow : data.u16At start < 0x10000 := Bytes.field_lt data start 2
  omega

namespace Placeable

/-- The fields of a header are put together to the words of the file again. -/
theorem computedChecksum_read {data : Bytes} (hSize : 20 ≤ data.size) :
    (read data).computedChecksum = data.wordXor 10 := by
  have hKey := u32At_words (show 0 + 4 ≤ data.size by omega)
  have hReserved := u32At_words (show 16 + 4 ≤ data.size by omega)
  simp only [computedChecksum, read, word_i16At, hKey, hReserved]
  rfl

/-- The checksum is right just if all eleven words of the header together give zero. The last
word is the stored one. -/
theorem checksumMatches_read {data : Bytes} (hSize : 20 ≤ data.size) :
    (read data).checksumMatches = true ↔ data.wordXor 11 = 0 := by
  rw [checksumMatches, beq_iff_eq, computedChecksum_read hSize, data.wordXor_succ 10,
    Nat.xor_eq_zero_iff]
  rfl

/-- Of the warnings one is about the checksum, if this is wrong. -/
theorem placeableChecksum_mem_warnings (p : Placeable) (stored computed : Nat) :
    .placeableChecksum stored computed ∈ p.warnings ↔
      p.checksumMatches = false ∧ stored = p.checksum ∧ computed = p.computedChecksum := by
  unfold warnings
  split <;> cases p.checksumMatches <;> simp

end Placeable

section

variable {first : Nat} {data other : Bytes} (hSame : Bytes.SameFrom first data other)

include hSame

/-- Records behind a place are the same in files that agree from there on. -/
theorem recordAt_eq_of_same {position : Nat} (hBehind : first ≤ position) :
    recordAt data position = recordAt other position := by
  have hSlice : ∀ count, data.slice (position + 6) count = other.slice (position + 6) count :=
    fun count => hSame.extract_eq (by omega) _
  have hSize : data.u32At position = other.u32At position := hSame.field_eq hBehind 4
  have hFunction : data.u16At (position + 4) = other.u16At (position + 4) :=
    hSame.field_eq (by omega) 2
  simp only [recordAt, hSize, hFunction, hSame.size_eq, hSlice]

/-- And so is the standard header, whatever the placeable one in front of it is. -/
theorem Header.read_eq_of_same {start : Nat} (hBehind : first ≤ start) (p : Option Placeable) :
    Header.read p data start = Header.read p other start := by
  have hField : ∀ offset width,
      data.field (start + offset) width = other.field (start + offset) width :=
    fun offset width => hSame.field_eq (by omega) width
  simp only [Header.read, Bytes.u16At, Bytes.u32At, hField, hSame.field_eq hBehind]

end

/-- Files that differ in their placeable headers alone are read alike behind these. -/
theorem File.decode_of_same {data other : Bytes} {limit : Nat} {file : File}
    (hSame : Bytes.SameFrom 22 other data)
    (hDecode : (File.decode true limit data).result = .ok file) :
    (File.decode true limit other).result =
      .ok { file with
        header := { file.header with placeable := some (Placeable.read other) } } := by
  obtain ⟨hRoom, hWords, rfl⟩ := File.decode_eq_ok_iff.1 hDecode
  have hHeader : Header.ofFile true other =
      { Header.ofFile true data with placeable := some (Placeable.read other) } :=
    Header.read_eq_of_same hSame (Nat.le_refl 22) _
  rw [File.decode_eq_ok_iff, hHeader, hSame.size_eq]
  refine ⟨hRoom, hWords, ?_⟩
  congr 1
  exact walk_congr (fun position hBehind => recordAt_eq_of_same hSame hBehind)
    (Nat.le_add_right 22 _) limit

/-- Nothing behind the header gives a warning. -/
theorem File.warnings_of_decode {data : Bytes} {limit : Nat} {file : File}
    (hDecode : (File.decode true limit data).result = .ok file) :
    (File.decode true limit data).warnings = (Placeable.read data).warnings := by
  obtain ⟨hVisits, hWarnings⟩ := File.visits_of_decode hDecode
  obtain ⟨stop, hPath, -⟩ :=
    exists_path_walk data.size (recordAt data) resync (file.start true) limit
  rw [hWarnings, hVisits, (chain_of_path hPath).2, List.append_nil]
  rfl

/-- A file with a placeable header tells by its checksum whether the words of the header are as they
were written. -/
theorem decode_checksum {data : Bytes} {limit : Nat} {file : File}
    (hDecode : (File.decode true limit data).result = .ok file) :
    ∃ p, file.header.placeable = some p ∧ p.computedChecksum = data.wordXor 10 ∧
      (p.checksumMatches = true ↔ data.wordXor 11 = 0) ∧
      (∀ stored computed,
        .placeableChecksum stored computed ∈ (File.decode true limit data).warnings ↔
          data.wordXor 11 ≠ 0 ∧ stored = p.checksum ∧ computed = p.computedChecksum) ∧
      (p.checksumMatches = true → ∀ bit < 8 * 22, ∃ damaged,
        (File.decode true limit (data.flipBit bit)).result =
          .ok { file with header := { file.header with placeable := some damaged } } ∧
        damaged.checksumMatches = false) := by
  have hRoom : 22 + 18 ≤ data.size := (File.decode_eq_ok_iff.1 hDecode).1
  have hWords : 20 ≤ data.size := by omega
  have hSum := Placeable.computedChecksum_read hWords
  have hMatches := Placeable.checksumMatches_read hWords
  refine ⟨Placeable.read data, ?_, hSum, hMatches, ?_, ?_⟩
  · obtain ⟨-, -, rfl⟩ := File.decode_eq_ok_iff.1 hDecode
    rfl
  · intro stored computed
    rw [File.warnings_of_decode hDecode, Placeable.placeableChecksum_mem_warnings, Ne, ← hMatches,
      Bool.not_eq_true]
  · intro hRight bit hBit
    refine ⟨Placeable.read (data.flipBit bit),
      File.decode_of_same (data.sameFrom_flipBit bit (by omega)) hDecode, ?_⟩
    rw [← Bool.not_eq_true, Placeable.checksumMatches_read (by rw [Bytes.size_flipBit]; omega),
      Bytes.wordXor_flipBit bit (by omega), hMatches.1 hRight, Nat.zero_xor, if_pos (by omega)]
    exact Nat.ne_of_gt (Nat.two_pow_pos _)

/-- A placeable header with negative edges and the right checksum, and a record behind it. -/
def checkedFile : Bytes :=
  #[0xD7, 0xCD, 0xC6, 0x9A, 0, 0, 0xF6, 0xFF, 0xEC, 0xFF, 0xE8, 3, 0xF4, 1, 0xA0, 5, 0, 0, 0, 0,
    0xB7, 0x50, 1, 0, 9, 0, 0, 3, 0, 0, 0, 0, 0, 0, 0, 0, 0, 0, 0, 0,
    5, 0, 0, 0, 0x14, 2, 1, 0, 2, 0, 3, 0, 0, 0, 0, 0]

theorem decode_checksum_checkedFile :
    (File.decode true 10 checkedFile).result =
        .ok ⟨Header.ofFile true checkedFile, [.record ⟨0x214, 5, 0, 40, #[1, 0, 2, 0]⟩]⟩ ∧
      (Placeable.read checkedFile).checksumMatches = true ∧
      ∃ damaged, (File.decode true 10 (checkedFile.flipBit 61)).result =
        .ok ⟨{ Header.ofFile true checkedFile with placeable := some damaged },
          [.record ⟨0x214, 5, 0, 40, #[1, 0, 2, 0]⟩]⟩ ∧ damaged.checksumMatches = false := by
  have hDecode : (File.decode true 10 checkedFile).result =
      .ok ⟨Header.ofFile true checkedFile, [.record ⟨0x214, 5, 0, 40, #[1, 0, 2, 0]⟩]⟩ := by
    decide +kernel
  have hRight : (Placeable.read checkedFile).checksumMatches = true := by decide +kernel
  obtain ⟨p, hPlaceable, -, -, -, hDamage⟩ := decode_checksum hDecode
  obtain rfl := Option.some.inj hPlaceable
  exact ⟨hDecode, hRight, hDamage hRight 61 (by decide)⟩

end Metafile.Wmf
