import Metafile.Picture
import Metafile.Proofs.Bytes.Fields
import Metafile.Proofs.Record.Encoding
import Metafile.Proofs.Wmf.Headers

/-! Laying out WMF files: the headers, filled up to the size that they declare, the
records behind them, and what may follow the last record. Reading such a file gives
back the headers and the records. -/

namespace Metafile.Wmf

open Bytes

/-- A record to be laid out. Its payload is made of whole words. -/
structure Entry where
  function : Nat
  payload : Bytes
  function_ne : function ≠ 0
  function_lt : function < 2 ^ 16
  even : payload.size % 2 = 0
  words_lt : payload.size / 2 + 3 < 2 ^ 32

namespace Entry

/-- The size of the record in words. -/
def words (entry : Entry) : Nat := entry.payload.size / 2 + 3

def fields (entry : Entry) : List Field := [⟨4, entry.words⟩, ⟨2, entry.function⟩]

def encoding : Encoding Entry where
  bytes entry := ofFields entry.fields ++ entry.payload
  record start entry := ⟨entry.function, entry.words, 0, start, entry.payload⟩

variable {data : Bytes} {start : Nat} {entry : Entry}

@[simp]
theorem size_bytes (entry : Entry) : (encoding.bytes entry).size = 2 * entry.words := by
  have hEven := entry.even
  have hFields : (ofFields entry.fields).size = 6 := size_ofFields _
  simp only [encoding, Array.size_append, hFields, words]
  omega

theorem fits_fields (entry : Entry) : ∀ f ∈ entry.fields, f.Fits := by
  simp only [fields, List.forall_mem_cons, List.not_mem_nil, false_imp_iff, implies_true, and_true]
  exact ⟨entry.words_lt, entry.function_lt⟩

/-- Where an entry is laid out, the file holds its record. -/
theorem standsIn (hPart : data.HasPart start (encoding.bytes entry)) :
    StandsIn data (encoding.record start entry) := by
  obtain ⟨hWords, hFunction, -⟩ := HasPart.holdsFields hPart.left entry.fits_fields
  have hEnd := hPart.end_le
  rw [size_bytes] at hEnd
  have hStop : start + 2 * entry.words = start + 6 + entry.payload.size := by
    have hEven := entry.even
    unfold words
    omega
  have hPayload : data.HasPart (start + 6) entry.payload := hPart.right
  have hBytes : data.extract (start + 6) (start + 2 * entry.words) = entry.payload := by
    rw [hStop]
    simpa using hPayload.extract_eq 0 (Nat.le_refl _)
  exact ⟨hWords.symm, Nat.le_add_left .., hFunction.symm, entry.function_ne, rfl, hEnd, hBytes.symm⟩

/-- A record that is written is found again at any place of a file. -/
theorem readsBack (data : Bytes) : encoding.ReadsBack data (recordAt data) := by
  intro entry start hPart
  obtain ⟨hAdvances, hStep⟩ := (standsIn hPart).recordAt_eq
  rw [size_bytes]
  exact ⟨hAdvances, hStep⟩

end Entry

/-- What follows the last record: nothing, or the end record and any bytes behind it. The
size of the end record is not looked at. -/
inductive Ending where
  | nothing
  | eof (words : Nat) (trailing : Bytes)

def Ending.bytes : Ending → Bytes
  | nothing => #[]
  | eof words trailing => ofFields [⟨4, words⟩, ⟨2, Kind.eof.code⟩] ++ trailing

theorem recordAt_eq_stop {data : Bytes} {position : Nat} (hNone : NoRecordAt data position) :
    recordAt data position = .stop := by
  have hMeets := recordAt_meets data position
  cases hStep : recordAt data position with
  | found r next hAdvances =>
      obtain ⟨rfl, hStands, -⟩ := hMeets.of_found hStep
      exact absurd hNone hStands.not_noRecordAt
  | bad fault => exact (hMeets.of_bad hStep).elim
  | stop => rfl

/-- Nothing is read of what follows the last record. -/
theorem Ending.walk_eq_nil {data : Bytes} {start : Nat} (ending : Ending)
    (hPart : data.HasPart start ending.bytes) (hEnd : start + ending.bytes.size = data.size)
    (limit : Nat) : walk data.size (recordAt data) resync start limit = [] := by
  cases ending with
  | nothing => exact walk_of_size_le _ _ _ (Nat.le_of_eq hEnd.symm)
  | eof words trailing =>
      have hFunction : data.HasPart (start + 4) (ofNat 2 Kind.eof.code) := by
        simpa using hPart.left.right.left
      exact walk_stop (recordAt_eq_stop (.inr (.inr (.inr (hFunction.u16At_eq (by decide))))))

namespace Placeable

/-- The fields of a placeable header in the order of the file. -/
def fields (p : Placeable) : List Field :=
  [⟨4, p.key⟩, ⟨2, p.handle⟩, ⟨2, twosComplement 16 p.bounds.left⟩,
    ⟨2, twosComplement 16 p.bounds.top⟩, ⟨2, twosComplement 16 p.bounds.right⟩,
    ⟨2, twosComplement 16 p.bounds.bottom⟩, ⟨2, p.unitsPerInch⟩, ⟨4, p.reserved⟩, ⟨2, p.checksum⟩]

/-- The fields have room for their values, and the edges of the box for their signs. -/
structure Fits (p : Placeable) : Prop where
  fields : ∀ f ∈ p.fields, f.Fits
  edges : ∀ edge ∈ [p.bounds.left, p.bounds.top, p.bounds.right, p.bounds.bottom],
    -2 ^ 15 ≤ edge ∧ edge < 2 ^ 15

theorem read_eq {data : Bytes} {p : Placeable} (hFits : p.Fits)
    (hFields : data.HoldsFields 0 p.fields) : read data = p := by
  have hEdge : ∀ edge ∈ [p.bounds.left, p.bounds.top, p.bounds.right, p.bounds.bottom],
      signed 16 (twosComplement 16 edge) = edge := fun edge hMem =>
    signed_twosComplement (by decide) (hFits.edges edge hMem).1 (hFits.edges edge hMem).2
  obtain ⟨key, handle, ⟨left, top, right, bottom⟩, unitsPerInch, reserved, checksum⟩ := p
  simp_all [HoldsFields, fields, read, u32At, u16At, i16At]

end Placeable

namespace Header

/-- The fields of a standard header in the order of the file. -/
def fields (h : Header) : List Field :=
  [⟨2, h.fileType⟩, ⟨2, h.headerSizeWords⟩, ⟨2, h.version⟩, ⟨4, h.fileSizeWords⟩,
    ⟨2, h.objectCount⟩, ⟨4, h.maxRecordWords⟩, ⟨2, h.reserved⟩]

/-- Headers are read back from their fields, the placeable one at the front and the other
wherever it starts. -/
theorem read_eq {data : Bytes} {start : Nat} {h : Header}
    (hFields : data.HoldsFields start h.fields) : read h.placeable data start = h := by
  obtain ⟨placeable, fileType, headerSizeWords, version, fileSizeWords, objectCount, maxRecordWords,
    reserved⟩ := h
  simp_all [HoldsFields, fields, read, u32At, u16At]

end Header

/-- The headers of a file to be laid out. The standard header declares at least one word,
and padding fills it up to the size that it declares. -/
structure Prologue where
  header : Header
  padding : Bytes
  placeable_fits : ∀ placeable ∈ header.placeable, placeable.Fits
  fits : ∀ f ∈ header.fields, f.Fits
  words_pos : 0 < header.headerSizeWords
  size_padding : 18 + padding.size = max 18 (2 * header.headerSizeWords)

namespace Prologue

variable (p : Prologue)

def placed : Bool := p.header.placeable.isSome

/-- The bytes of the placeable header, if there is one. -/
def placeableBytes : Bytes :=
  p.header.placeable.elim #[] fun placeable => ofFields placeable.fields

def bytes : Bytes := p.placeableBytes ++ ofFields p.header.fields ++ p.padding

/-- The format of the files with these headers. -/
def format : Format := if p.placed then .placeableWmf else .wmf

/-- The first bytes tell the format: the key of the placeable header, or the type and size
of a standard one. -/
def Announced : Prop :=
  match p.header.placeable with
  | some placeable => placeable.key = 0x9AC6CDD7
  | none => p.header.fileType ≤ 2 ∧ p.header.headerSizeWords = 9

/-- A file with these headers. -/
def file (entries : List Entry) (ending : Ending) : Bytes :=
  p.bytes ++ Entry.encoding.stream entries ++ ending.bytes

/-- The placeable header takes its bytes only if there is one. -/
theorem size_placeableBytes : p.placeableBytes.size = Header.start p.placed := by
  unfold placeableBytes placed
  cases p.header.placeable with
  | none => rfl
  | some placeable => exact size_ofFields _

/-- The prologue is as long as the header says, and no shorter than its fields. -/
theorem size_bytes :
    p.bytes.size = Header.start p.placed + max 18 (2 * p.header.headerSizeWords) := by
  have hFields : (ofFields p.header.fields).size = 18 := size_ofFields _
  have hPadding := p.size_padding
  rw [bytes, Array.size_append, Array.size_append, size_placeableBytes, hFields]
  omega

variable (entries : List Entry) (ending : Ending)

/-- The parts of a file at their places. -/
theorem hasPart_file :
    (p.file entries ending).HasPart 0 p.placeableBytes ∧
      (p.file entries ending).HasPart (Header.start p.placed) (ofFields p.header.fields) ∧
      (p.file entries ending).HasPart p.bytes.size (Entry.encoding.stream entries) ∧
      (p.file entries ending).HasPart (p.bytes.size + (Entry.encoding.stream entries).size)
        ending.bytes := by
  have hWhole : (p.file entries ending).HasPart 0
      (p.bytes ++ Entry.encoding.stream entries ++ ending.bytes) := hasPart_self _
  have hHeaders : (p.file entries ending).HasPart 0
      (p.placeableBytes ++ ofFields p.header.fields ++ p.padding) := hWhole.left.left
  refine ⟨hHeaders.left.left, ?_, ?_, ?_⟩
  · rw [← size_placeableBytes]
    simpa using hHeaders.left.right
  · simpa using hWhole.left.right
  · simpa using hWhole.right

/-- The headers are read back from the front of a file. -/
theorem ofFile_file : Header.ofFile p.placed (p.file entries ending) = p.header := by
  obtain ⟨hPlaceable, hStandard, -, -⟩ := p.hasPart_file entries ending
  have hRead := Header.read_eq (hStandard.holdsFields p.fits)
  unfold placeableBytes at hPlaceable
  unfold Header.ofFile
  rw [← hRead]
  congr 1
  unfold placed
  cases hCase : p.header.placeable with
  | none => rfl
  | some placeable =>
      have hFits := p.placeable_fits placeable hCase
      rw [hCase] at hPlaceable
      exact congrArg some (Placeable.read_eq hFits (hPlaceable.holdsFields hFits.fields))

/-- Behind the headers all entries are read back, and nothing that follows them. -/
theorem walk_file {limit : Nat} (hLimit : entries.length ≤ limit) :
    walk (p.file entries ending).size (recordAt (p.file entries ending)) resync p.bytes.size limit =
      (Entry.encoding.records p.bytes.size entries).map .record := by
  obtain ⟨-, -, hStream, hEnding⟩ := p.hasPart_file entries ending
  have hEnd : p.bytes.size + (Entry.encoding.stream entries).size + ending.bytes.size =
      (p.file entries ending).size := by
    simp only [file, Array.size_append]
  rw [(Entry.readsBack _).walk_stream hStream hLimit, ending.walk_eq_nil hEnding hEnd,
    List.append_nil]

/-- A laid out file gives back its header and its records, with the offsets at which they were
written. -/
theorem decode_eq {limit : Nat} (hLimit : entries.length ≤ limit) :
    (File.decode p.placed limit (p.file entries ending)).result =
      .ok ⟨p.header, (Entry.encoding.records p.bytes.size entries).map .record⟩ := by
  have hSize := p.size_bytes
  rw [File.decode_eq_ok_iff, ofFile_file, ← hSize, walk_file p entries ending hLimit]
  refine ⟨?_, Nat.ne_of_gt p.words_pos, rfl⟩
  simp only [file, Array.size_append]
  omega

/-- The first bytes of a file are those of its first header. -/
theorem detect_file (hAnnounced : p.Announced) :
    Format.detect (p.file entries ending) = p.format := by
  have hRoom : 18 ≤ (p.file entries ending).size := by
    have hSize := p.size_bytes
    simp only [file, Array.size_append]
    omega
  obtain ⟨hPlaceable, hStandard, -, -⟩ := p.hasPart_file entries ending
  unfold Announced at hAnnounced
  unfold placeableBytes at hPlaceable
  unfold format placed
  unfold placed at hStandard
  have hEnough : ¬(p.file entries ending).size < 4 := by omega
  cases hCase : p.header.placeable with
  | some placeable =>
      rw [hCase] at hAnnounced hPlaceable
      have hKey : (p.file entries ending).u32At 0 = Placeable.expectedKey :=
        (hPlaceable.holdsFields (p.placeable_fits placeable hCase).fields).1.trans hAnnounced
      simp [Format.detect, hEnough, hKey]
  | none =>
      rw [hCase] at hAnnounced hStandard
      obtain ⟨hType, hWords, -⟩ := hStandard.holdsFields p.fits
      have hFirst : (p.file entries ending).u32At 0 =
          p.header.fileType + 256 ^ 2 * p.header.headerSizeWords := by
        rw [u32At, show 4 = 2 + 2 from rfl, field_add (by omega)]
        exact congrArg₂ (fun low high => low + 256 ^ 2 * high) hType hWords
      rw [hAnnounced.2] at hFirst
      have hMark : p.header.fileType + 256 ^ 2 * 9 ∈ Format.wmfMarks := by
        have hLe := hAnnounced.1
        simp only [Format.wmfMarks, List.mem_cons, List.not_mem_nil, or_false]
        omega
      have hKey : p.header.fileType + 256 ^ 2 * 9 ≠ Placeable.expectedKey := by
        have hLe := hAnnounced.1
        unfold Placeable.expectedKey
        omega
      simp only [Format.detect, hFirst, if_neg hEnough, if_neg hKey, if_pos hMark]
      rfl

end Prologue

/-- A file is read back in the format of its headers: the headers with all their fields,
and each record with its function number, size, place and payload. Where the first
bytes tell the format, it is also found out. -/
theorem decode_laidOut (p : Prologue) (entries : List Entry) (ending : Ending) (limits : Limits)
    (hLimit : entries.length ≤ limits.wmfRecords) :
    let data := p.file entries ending
    let records := Entry.encoding.records p.bytes.size entries
    (p.format.decode limits data).result = .ok (.wmf p.header, records) ∧
      (p.Announced → Format.detect data = p.format ∧
        (Picture.decode limits data).1 = ⟨p.format, some (.wmf p.header), records, none⟩) := by
  intro data records
  have hReport : p.format.decode limits data =
      (File.decode p.placed limits.wmfRecords data).map fun file =>
        (.wmf file.header, Visit.records file.visits) := by
    unfold Prologue.format
    cases p.placed <;> rfl
  have hDecode : (p.format.decode limits data).result = .ok (.wmf p.header, records) := by
    rw [hReport, Report.map, p.decode_eq entries ending hLimit]
    simp [Except.map, records]
  refine ⟨hDecode, fun hAnnounced => ?_⟩
  have hDetect := p.detect_file entries ending hAnnounced
  have hKnown : p.format ≠ .unknown := by
    unfold Prologue.format
    split <;> decide
  refine ⟨hDetect, ?_⟩
  unfold Picture.decode
  simp only [data, hDetect, if_neg hKnown, hDecode]

/-- A placeable header with its box below the origin, in front of a standard header of ten
words and two bytes of padding. -/
def placedPrologue : Prologue where
  header := ⟨some ⟨0x9AC6CDD7, 0xFFFF, ⟨-100, -32768, 100, 32767⟩, 1440, 0x80000001, 0x1234⟩,
    1, 10, 0x300, 0xFFFFFFFF, 3, 5, 7⟩
  padding := #[0xAA, 0xBB]
  placeable_fits := by
    rintro placeable ⟨⟩
    exact ⟨by decide, by decide⟩
  fits := by decide
  words_pos := by decide
  size_padding := by decide

/-- Two records, one of them without a payload, an end record of an odd size, and bytes that
look like another record. -/
theorem decode_laidOut_placedPrologue :
    let entries : List Entry :=
      [⟨0x214, #[1, 0, 2, 0], by decide, by decide, by decide, by decide⟩,
        ⟨0x1E, #[], by decide, by decide, by decide, by decide⟩]
    let ending : Ending := .eof 9 #[3, 0, 0, 0, 0x1E, 0]
    entries.length ≤ Limits.standard.wmfRecords ∧ placedPrologue.Announced ∧
      (Picture.decode .standard (placedPrologue.file entries ending)).1 =
        ⟨.placeableWmf, some (.wmf placedPrologue.header),
          [⟨0x214, 5, 0, 42, #[1, 0, 2, 0]⟩, ⟨0x1E, 3, 0, 52, #[]⟩], none⟩ := by
  intro entries ending
  have hLimit : entries.length ≤ Limits.standard.wmfRecords := by decide
  exact ⟨hLimit, rfl, ((decode_laidOut placedPrologue entries ending .standard hLimit).2 rfl).2⟩

end Metafile.Wmf
