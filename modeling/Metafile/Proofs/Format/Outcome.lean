import Metafile.Proofs.Bytes.Fields
import Metafile.Proofs.Emf.Tiling
import Metafile.Proofs.Truncation

/-! What becomes of a buffer: which format it is taken for, and whether a file of this format
can be read from it. Both depend only on the size of the buffer and on a few fields of its
headers. -/

namespace Metafile

namespace Format

/-- The buffer begins with the mark of a placeable header. -/
def Placed (data : Bytes) : Prop := data.extract 0 4 = #[0xD7, 0xCD, 0xC6, 0x9A]

/-- The buffer begins like a standard header of nine words. -/
def Standard (data : Bytes) : Prop :=
  4 ≤ data.size ∧ (data.u32At 0 = 0x00090000 ∨ data.u32At 0 = 0x00090001 ∨
    data.u32At 0 = 0x00090002)

/-- The buffer has the signature of an EMF header, and room for the whole header. -/
def Signed (data : Bytes) : Prop :=
  88 ≤ data.size ∧ data.extract 40 44 = #[0x20, 0x45, 0x4D, 0x46]

/-- The formats with an EMF header. -/
def isEnhanced : Format → Bool
  | emf | emfPlus => true
  | placeableWmf | wmf | unknown => false

variable {data : Bytes}

/-- With four bytes at least, the key of a placeable file is the number in front. -/
private theorem placed_iff_of_size (hFits : 4 ≤ data.size) :
    Placed data ↔ data.u32At 0 = 0x9AC6CDD7 := by
  have hMark : data.field 0 4 = littleEndian [0xD7, 0xCD, 0xC6, 0x9A] ↔ _ :=
    Bytes.field_eq_littleEndian_iff (by omega) rfl
  exact hMark.symm

/-- The key of a placeable file stands in front. Fewer than four bytes have no such number. -/
theorem placed_iff : Placed data ↔ 4 ≤ data.size ∧ data.u32At 0 = 0x9AC6CDD7 := by
  constructor
  · intro hPlaced
    have hSize := congrArg Array.size hPlaced
    rw [Array.size_extract] at hSize
    have hFits : 4 ≤ data.size := by
      simp only [List.size_toArray, List.length_cons, List.length_nil] at hSize
      omega
    exact ⟨hFits, (placed_iff_of_size hFits).1 hPlaced⟩
  · rintro ⟨hFits, hFirst⟩
    exact (placed_iff_of_size hFits).2 hFirst

/-- The signature of an enhanced file stands behind its fortieth byte, and a header of 88 bytes
has to be there. -/
theorem signed_iff : Signed data ↔ 88 ≤ data.size ∧ data.u32At 40 = 0x464D4520 := by
  refine and_congr_right fun hRoom => Iff.symm ?_
  show data.field 40 4 = littleEndian [0x20, 0x45, 0x4D, 0x46] ↔ _
  exact Bytes.field_eq_littleEndian_iff (by omega) rfl

/-- A buffer is taken for a file of the first format whose mark it has. -/
theorem detect_cases (data : Bytes) :
    (Placed data ∧ detect data = .placeableWmf) ∨
      (¬Placed data ∧ Standard data ∧ detect data = .wmf) ∨
      (¬Placed data ∧ ¬Standard data ∧ Signed data ∧ (detect data).isEnhanced) ∨
      (¬Placed data ∧ ¬Standard data ∧ ¬Signed data ∧ detect data = .unknown) := by
  rw [placed_iff, signed_iff]
  unfold Standard detect
  dsimp only
  split
  case isTrue hShort =>
    refine .inr (.inr (.inr ⟨?_, ?_, ?_, rfl⟩)) <;> omega
  case isFalse hFits =>
    have hFits' : 4 ≤ data.size := Nat.not_lt.1 hFits
    split
    case isTrue hPlaced => exact .inl ⟨⟨hFits', hPlaced⟩, rfl⟩
    case isFalse hPlaced =>
      have hNotPlaced : ¬(4 ≤ data.size ∧ data.u32At 0 = 0x9AC6CDD7) := fun h => hPlaced h.2
      split
      case isTrue hMark =>
        exact .inr (.inl ⟨hNotPlaced, ⟨hFits', by simpa [wmfMarks] using hMark⟩, rfl⟩)
      case isFalse hMark =>
        have hNotStandard : ¬(4 ≤ data.size ∧ (data.u32At 0 = 0x00090000 ∨
            data.u32At 0 = 0x00090001 ∨ data.u32At 0 = 0x00090002)) :=
          fun h => hMark (by simpa [wmfMarks] using h.2)
        split
        case isTrue hSigned =>
          refine .inr (.inr (.inl ⟨hNotPlaced, hNotStandard, hSigned, ?_⟩))
          split <;> rfl
        case isFalse hSigned =>
          exact .inr (.inr (.inr ⟨hNotPlaced, hNotStandard, hSigned, rfl⟩))

/-- Each format is told from the others by its marks alone, tested in this order. No buffer has
two formats. -/
theorem detect_iff (data : Bytes) :
    (detect data = .placeableWmf ↔ Placed data) ∧
      (detect data = .wmf ↔ ¬Placed data ∧ Standard data) ∧
      ((detect data).isEnhanced ↔ ¬Placed data ∧ ¬Standard data ∧ Signed data) ∧
      (detect data = .unknown ↔ ¬Placed data ∧ ¬Standard data ∧ ¬Signed data) := by
  rcases detect_cases data with ⟨hPlaced, hFormat⟩ | ⟨hPlaced, hStandard, hFormat⟩ |
    ⟨hPlaced, hStandard, hSigned, hEnhanced⟩ | ⟨hPlaced, hStandard, hSigned, hFormat⟩
  · simp [hFormat, isEnhanced, hPlaced]
  · simp [hFormat, isEnhanced, hPlaced, hStandard]
  · cases hFormat : detect data with
    | emf | emfPlus => simp [isEnhanced, hPlaced, hStandard, hSigned]
    | placeableWmf | wmf | unknown =>
        rw [hFormat] at hEnhanced
        cases hEnhanced
  · simp [hFormat, isEnhanced, hPlaced, hStandard, hSigned]

/-- The formats with the header of an enhanced file. -/
theorem isEnhanced_iff {format : Format} :
    format.isEnhanced ↔ format = .emf ∨ format = .emfPlus := by
  cases format <;> simp [isEnhanced]

/-- Why a buffer that is taken for a file of a format is refused. -/
inductive Refused (data : Bytes) : Format → HeaderError → Prop
  | placeableCut (hSize : data.size < 22) : Refused data .placeableWmf (.truncated 22 data.size)
  | standardCut (hPlaceable : 22 ≤ data.size) (hSize : data.size < 40) :
      Refused data .placeableWmf (.truncated 40 data.size)
  | withoutWords (hHeaders : 40 ≤ data.size) (hWords : data.u16At 24 = 0) :
      Refused data .placeableWmf .withoutWords
  | wmfCut (hSize : data.size < 18) : Refused data .wmf (.truncated 18 data.size)
  | recordType {format : Format} (hFormat : format.isEnhanced) (hType : data.u32At 0 ≠ 1) :
      Refused data format (.invalidRecordType (data.u32At 0))
  | headerSize {format : Format} (hFormat : format.isEnhanced) (hType : data.u32At 0 = 1)
      (hSize : data.u32At 4 < 88) : Refused data format (.invalidSize (data.u32At 4))
  | unknown : Refused data .unknown .unknownFormat

end Format

open Format

/-- An error of a report stays what it is when something else is made of its result. -/
theorem Report.result_map_eq_error_iff {α β : Type} {f : α → β} {report : Report α}
    {error : HeaderError} :
    (report.map f).result = .error error ↔ report.result = .error error := by
  cases hResult : report.result <;> simp [Report.map, hResult, Except.map]

namespace Emf

/-- An enhanced file is refused just if its header is. The walk over its records never refuses
it. -/
theorem File.result_eq_error_iff {data : Bytes} {error : HeaderError} :
    (File.decode data).result = .error error ↔ Header.decode data = .error error := by
  unfold File.decode
  cases Header.decode data <;> simp [Report.fail, Report.done]

/-- Once the signature is found, only the two fields before the bounds can be wrong. -/
theorem Header.decode_eq_error_iff {data : Bytes} {format : Format} {error : HeaderError}
    (hFormat : format.isEnhanced) (hSigned : Signed data) :
    Header.decode data = .error error ↔ Refused data format error := by
  obtain ⟨hRoom, hSignature⟩ := signed_iff.1 hSigned
  have hChecks : Header.decode data =
      if data.u32At 0 ≠ 1 then .error (.invalidRecordType (data.u32At 0))
      else if data.u32At 4 < 88 then .error (.invalidSize (data.u32At 4))
      else .ok (read data) := by
    have hRoom' : ¬data.size < size := Nat.not_lt.2 hRoom
    have hSignature' : ¬(read data).signature ≠ expectedSignature := not_not_intro hSignature
    rw [decode, if_neg hRoom', if_neg hSignature']
    rfl
  rw [hChecks]
  constructor
  · intro hError
    split at hError
    case isTrue hType =>
      cases hError
      exact .recordType hFormat hType
    case isFalse hType =>
      split at hError
      case isTrue hSize =>
        cases hError
        exact .headerSize hFormat (not_not.1 hType) hSize
      case isFalse => cases hError
  · intro hRefused
    cases hRefused with
    | recordType _ hType => rw [if_pos hType]
    | headerSize _ hType hSize => rw [if_neg (not_not_intro hType), if_pos hSize]
    | placeableCut | standardCut | withoutWords | wmfCut | unknown => cases hFormat

end Emf

/-- The same header stands in front of files with records of both kinds, and it alone decides on
them too. -/
theorem Plus.File.result_eq_error_iff {limit : Nat} {data : Bytes} {error : HeaderError} :
    (Plus.File.decode limit data).result = .error error ↔
      Emf.Header.decode data = .error error := by
  unfold Plus.File.decode
  cases Emf.Header.decode data <;> simp [Report.fail, Report.done]

namespace Wmf

/-- A placeable file is refused for its own header or for the standard header behind it, and for
nothing else. -/
theorem File.placed_eq_error_iff {limit : Nat} {data : Bytes} {error : HeaderError} :
    (File.decode true limit data).result = .error error ↔
      Refused data .placeableWmf error := by
  have hChecks : ∃ file, (File.decode true limit data).result =
      if data.size < 22 then .error (.truncated 22 data.size)
      else if data.size < 40 then .error (.truncated 40 data.size)
      else if data.u16At 24 = 0 then .error .withoutWords
      else .ok file := by
    refine ⟨⟨Header.ofFile true data, walk data.size (recordAt data) resync
      (22 + max 18 (2 * data.u16At 24)) limit⟩, ?_⟩
    unfold File.decode
    simp only [Bool.true_and, decide_eq_true_eq, if_true]
    rw [apply_ite Report.result, apply_ite Report.result, apply_ite Report.result]
    rfl
  obtain ⟨file, hChecks⟩ := hChecks
  rw [hChecks]
  constructor
  · intro hError
    split at hError
    case isTrue hShort =>
      cases hError
      exact .placeableCut hShort
    case isFalse hPlaceable =>
      split at hError
      case isTrue hShort =>
        cases hError
        exact .standardCut (Nat.not_lt.1 hPlaceable) hShort
      case isFalse hRoom =>
        split at hError
        case isTrue hWords =>
          cases hError
          exact .withoutWords (Nat.not_lt.1 hRoom) hWords
        case isFalse => cases hError
  · intro hRefused
    cases hRefused with
    | placeableCut hSize => rw [if_pos hSize]
    | standardCut hPlaceable hSize => rw [if_neg (Nat.not_lt.2 hPlaceable), if_pos hSize]
    | withoutWords hHeaders hWords =>
        rw [if_neg (by omega), if_neg (Nat.not_lt.2 hHeaders), if_pos hWords]
    | recordType hFormat | headerSize hFormat => cases hFormat

/-- The mark of a standard header says how many words the header has, and these are not
none. -/
theorem headerSizeWords_of_standard {data : Bytes} (hStandard : Standard data) :
    data.u16At 2 ≠ 0 := by
  obtain ⟨hFits, hMark⟩ := hStandard
  have hSplit : data.u32At 0 = data.u16At 0 + 256 ^ 2 * data.u16At 2 := by
    show data.field 0 (2 + 2) = data.field 0 2 + 256 ^ 2 * data.field (0 + 2) 2
    exact Bytes.field_add (by omega)
  have hLow : data.u16At 0 < 256 ^ 2 := Bytes.field_lt ..
  omega

/-- A file without a placeable header is refused for its standard header only. -/
theorem File.standard_eq_error_iff {limit : Nat} {data : Bytes} {error : HeaderError}
    (hStandard : Standard data) :
    (File.decode false limit data).result = .error error ↔ Refused data .wmf error := by
  have hWords : (Header.read none data 0).headerSizeWords ≠ 0 :=
    headerSizeWords_of_standard hStandard
  have hChecks : (File.decode false limit data).result =
      if data.size < 18 then .error (.truncated 18 data.size)
      else .ok ⟨Header.read none data 0, walk data.size (recordAt data) resync
        (max 18 (2 * (Header.read none data 0).headerSizeWords)) limit⟩ := by
    unfold File.decode
    simp only [Bool.false_and, Bool.false_eq_true, if_false, Header.size, Nat.zero_add,
      if_neg hWords]
    split <;> rfl
  rw [hChecks]
  constructor
  · intro hError
    split at hError
    case isTrue hShort =>
      cases hError
      exact .wmfCut hShort
    case isFalse => cases hError
  · intro hRefused
    cases hRefused with
    | wmfCut hSize => rw [if_pos hSize]
    | recordType hFormat | headerSize hFormat => cases hFormat

end Wmf

namespace Format

variable {limits : Limits} {data : Bytes}

/-- What decoding of a buffer reports. -/
def report (limits : Limits) (data : Bytes) : Report (Header × List Record) :=
  if detect data = .unknown then .fail .unknownFormat [] else (detect data).decode limits data

/-- For every buffer the reason of the refusal is the one that its format gives. A buffer that is
not refused is decoded, so that this tells of success as well. -/
theorem report_eq_error_iff {error : HeaderError} :
    (report limits data).result = .error error ↔ Refused data (detect data) error := by
  rcases detect_cases data with ⟨-, hFormat⟩ | ⟨-, hStandard, hFormat⟩ | ⟨-, -, hSigned, hFormat⟩ |
    ⟨-, -, -, hFormat⟩
  · rw [report, hFormat]
    exact Report.result_map_eq_error_iff.trans Wmf.File.placed_eq_error_iff
  · rw [report, hFormat]
    exact Report.result_map_eq_error_iff.trans (Wmf.File.standard_eq_error_iff hStandard)
  · cases hKind : detect data with
    | emf =>
        rw [report, hKind]
        exact Report.result_map_eq_error_iff.trans (Emf.File.result_eq_error_iff.trans
          (Emf.Header.decode_eq_error_iff rfl hSigned))
    | emfPlus =>
        rw [report, hKind]
        exact Report.result_map_eq_error_iff.trans (Plus.File.result_eq_error_iff.trans
          (Emf.Header.decode_eq_error_iff rfl hSigned))
    | placeableWmf | wmf | unknown =>
        rw [hKind] at hFormat
        cases hFormat
  · rw [report, hFormat]
    constructor
    · intro hError
      cases hError
      exact .unknown
    · intro hRefused
      cases hRefused with
      | unknown => rfl
      | recordType hEnhanced | headerSize hEnhanced => cases hEnhanced

/-- The header that is read belongs to the format. -/
theorem header_of_report {header : Header} {rs : List Record}
    (hReport : (report limits data).result = .ok (header, rs)) :
    if (detect data).isEnhanced then ∃ h, header = .emf h else ∃ h, header = .wmf h := by
  unfold report at hReport
  cases hFormat : detect data with
  | unknown =>
      rw [hFormat] at hReport
      cases hReport
  | placeableWmf | wmf | emf | emfPlus =>
      rw [hFormat] at hReport
      obtain ⟨file, -, hFile⟩ := Report.result_map_eq_ok_iff.1 hReport
      exact ⟨file.header, (congrArg Prod.fst hFile).symm⟩

end Format

namespace Picture

/-- A picture that is refused keeps its format and its error, and has neither header nor
records. -/
theorem decode_of_error {limits : Limits} {data : Bytes} {error : HeaderError}
    (hReport : (report limits data).result = .error error) :
    (Picture.decode limits data).1 = ⟨detect data, none, [], some error⟩ := by
  unfold report at hReport
  rw [Picture.decode, hReport]

/-- A picture that is not refused has a header and no error. -/
theorem decode_of_ok {limits : Limits} {data : Bytes} {file : Header × List Record}
    (hReport : (report limits data).result = .ok file) :
    (Picture.decode limits data).1 = ⟨detect data, some file.1, file.2, none⟩ := by
  unfold report at hReport
  rw [Picture.decode, hReport]

/-- Which format a buffer is taken for, when it is refused and why: a buffer of any size is
refused for one of the listed reasons or not at all, whatever stands behind its headers. If it is
refused then nothing of it is kept, and else there is a header of the format. -/
theorem decode_outcome (limits : Limits) (data : Bytes) :
    let p := (Picture.decode limits data).1
    (p.format = .placeableWmf ↔ Placed data) ∧
    (p.format = .wmf ↔ ¬Placed data ∧ Standard data) ∧
    (p.format = .emf ∨ p.format = .emfPlus ↔ ¬Placed data ∧ ¬Standard data ∧ Signed data) ∧
    (p.format = .unknown ↔ ¬Placed data ∧ ¬Standard data ∧ ¬Signed data) ∧
    (∀ error, p.error = some error ↔ Refused data p.format error) ∧
    (∀ error, p.error = some error → p.header = none ∧ p.records = []) ∧
    (p.error = none →
      (p.format = .placeableWmf ∨ p.format = .wmf → ∃ h, p.header = some (.wmf h)) ∧
      (p.format = .emf ∨ p.format = .emfPlus → ∃ h, p.header = some (.emf h))) := by
  intro p
  have hFormat : p.format = detect data := by
    cases hReport : (report limits data).result with
    | error error => rw [show p = _ from decode_of_error hReport]
    | ok file => rw [show p = _ from decode_of_ok hReport]
  have hError : ∀ error, p.error = some error ↔ (report limits data).result = .error error := by
    cases hReport : (report limits data).result with
    | error error => simp [show p = _ from decode_of_error hReport]
    | ok file => simp [show p = _ from decode_of_ok hReport]
  obtain ⟨hPlaced, hStandard, hEnhanced, hUnknown⟩ := detect_iff data
  rw [hFormat, ← isEnhanced_iff]
  refine ⟨hPlaced, hStandard, hEnhanced, hUnknown,
    fun error => (hError error).trans report_eq_error_iff, ?_, ?_⟩
  · intro error hFails
    rw [show p = _ from decode_of_error ((hError error).1 hFails)]
    exact ⟨rfl, rfl⟩
  · intro hNone
    cases hReport : (report limits data).result with
    | error error =>
        rw [(hError error).2 hReport] at hNone
        cases hNone
    | ok file =>
        obtain ⟨header, rs⟩ := file
        have hHeader := header_of_report hReport
        rw [show p = _ from decode_of_ok hReport]
        constructor
        · rintro (hWmf | hWmf) <;> rw [hWmf] at hHeader <;> obtain ⟨h, rfl⟩ := hHeader <;>
            exact ⟨h, rfl⟩
        · intro hEmf
          rw [if_pos hEmf] at hHeader
          obtain ⟨h, rfl⟩ := hHeader
          exact ⟨h, rfl⟩

end Picture

end Metafile
