import Metafile.Proofs.Emf.Tiling
import Metafile.Proofs.Record.Encoding

/-! Laying out EMF files: a header of any length, and records behind it. Reading
such a file gives back the header and the records. -/

namespace Metafile.Emf

/-- A record to be laid out. -/
structure Entry where
  type : Nat
  payload : Bytes
  type_lt : type < 2 ^ 32
  aligned : payload.size % 4 = 0
  size_lt : 8 + payload.size < 2 ^ 32

def Entry.encoding : Encoding Entry where
  bytes entry := .ofNat 4 entry.type ++ .ofNat 4 (8 + entry.payload.size) ++ entry.payload
  record start entry := ⟨entry.type, 8 + entry.payload.size, 0, start, entry.payload⟩

/-- An entry takes the bytes of its payload and eight more for its type and its size. -/
@[simp]
theorem Entry.size_bytes (entry : Entry) :
    (Entry.encoding.bytes entry).size = 8 + entry.payload.size := by
  simp only [Entry.encoding, Array.size_append, Bytes.size_ofNat]

/-- Its payload stands behind the eight bytes. -/
theorem Entry.hasPart_payload {data : Bytes} {start : Nat} {entry : Entry}
    (hPart : data.HasPart start (Entry.encoding.bytes entry)) :
    data.HasPart (start + 8) entry.payload := by
  simpa [Entry.encoding] using hPart.right

/-- The first of its fields is read back as its type. -/
theorem Entry.type_eq {data : Bytes} {start : Nat} {entry : Entry}
    (hPart : data.HasPart start (Entry.encoding.bytes entry)) : data.u32At start = entry.type :=
  hPart.left.left.u32At_eq entry.type_lt

/-- And the second as its size, which counts all of the entry and not only its payload. -/
theorem Entry.size_eq {data : Bytes} {start : Nat} {entry : Entry}
    (hPart : data.HasPart start (Entry.encoding.bytes entry)) :
    data.u32At (start + 4) = 8 + entry.payload.size := by
  have hSize : data.HasPart (start + 4) (.ofNat 4 (8 + entry.payload.size)) := by
    simpa using hPart.left.right
  exact hSize.u32At_eq entry.size_lt

/-- Where an entry is laid out, the file holds its record. -/
theorem Entry.standsIn {data : Bytes} {start : Nat} {entry : Entry}
    (hPart : data.HasPart start (Entry.encoding.bytes entry)) :
    StandsIn data (Entry.encoding.record start entry) where
  opcode_eq := (Entry.type_eq hPart).symm
  size_eq := (Entry.size_eq hPart).symm
  size_ge := Nat.le_add_right ..
  aligned := by
    have hAligned := entry.aligned
    dsimp only [Entry.encoding]
    omega
  flags_eq := rfl
  end_le := by
    have hEnd := hPart.end_le
    rwa [Entry.size_bytes] at hEnd
  payload_eq := by
    have hPayload := (Entry.hasPart_payload hPart).extract_eq 0 (Nat.le_refl _)
    simpa [Entry.encoding, Nat.add_assoc] using hPayload.symm

/-- Wherever an entry stands in the data, it is found there as a record with its type and its
payload, and the next one is looked for behind it. -/
theorem Entry.readsBack (data : Bytes) : Entry.encoding.ReadsBack data (recordAt data) := by
  intro entry start hPart
  obtain ⟨hAdvances, hStep⟩ := (Entry.standsIn hPart).recordAt_eq
  rw [Entry.size_bytes]
  exact ⟨hAdvances, hStep⟩

/-- The bytes of a header: its fixed fields, and whatever fills it up to its size. -/
structure Prologue where
  bytes : Bytes
  size_ge : 88 ≤ bytes.size
  recordType_eq : bytes.u32At 0 = 1
  headerSize_eq : bytes.u32At 4 = bytes.size
  signature_eq : bytes.u32At 40 = 0x464D4520

/-- The number of records that a header announces. -/
def Prologue.recordCount (p : Prologue) : Nat := p.bytes.u32At 52

/-- All that is read of a header lies in its first 88 bytes. -/
theorem Header.read_append {front : Bytes} (hSize : 88 ≤ front.size) (back : Bytes) :
    Header.read (front ++ back) = Header.read front := by
  have hField : ∀ start width, start + width ≤ 88 →
      Bytes.field (front ++ back) start width = front.field start width :=
    fun start width hFits => Bytes.field_append (by omega) back
  simp (disch := decide) only [Header.read, Header.rectAt, Header.signatureOffset, Bytes.u32At,
    Bytes.u16At, Bytes.i32At, hField]

/-- The header is accepted and found to be the same, whatever stands behind it. -/
theorem Prologue.decode_append (p : Prologue) (back : Bytes) :
    Header.decode (p.bytes ++ back) = .ok (Header.read p.bytes) := by
  have hHeaderSize : 88 ≤ p.bytes.u32At 4 := by
    rw [p.headerSize_eq]
    exact p.size_ge
  rw [Header.decode_eq_ok_iff, Header.read_append p.size_ge, Array.size_append]
  exact ⟨Nat.le_add_right_of_le p.size_ge, p.signature_eq, p.recordType_eq, hHeaderSize, rfl⟩

/-- A file with nothing behind its entries. -/
def Prologue.file (p : Prologue) (entries : List Entry) : Bytes :=
  p.bytes ++ Entry.encoding.stream entries

/-- The entries of a file stand behind the header, one behind the other. -/
theorem Prologue.hasPart_file (p : Prologue) (entries : List Entry) :
    (p.file entries).HasPart p.bytes.size (Entry.encoding.stream entries) :=
  ⟨p.bytes, #[], by simp [Prologue.file], rfl⟩

/-- Behind a header that counts them, all entries are read back. -/
theorem Prologue.visits_file (p : Prologue) {entries : List Entry}
    (hCount : entries.length ≤ p.recordCount) :
    (Header.read p.bytes).visits (p.file entries) =
      (Entry.encoding.records p.bytes.size entries).map .record := by
  have hEnd : p.bytes.size + (Entry.encoding.stream entries).size = (p.file entries).size := by
    rw [Prologue.file, Array.size_append]
  have hStart : (Header.read p.bytes).headerSize = p.bytes.size := p.headerSize_eq
  rw [Header.visits, hStart]
  exact (Entry.readsBack _).walk_eq (p.hasPart_file entries) hEnd hCount

end Metafile.Emf
