import Metafile.Emf.File
import Metafile.Proofs.Record.Path

/-! The records of an EMF file and the blocks that reading skips cover the file
from the end of its header to the place where reading ends, each byte once. -/

namespace Metafile.Emf

/-- A record that is in a file just as its own fields say. -/
structure StandsIn (data : Bytes) (r : Record) : Prop where
  opcode_eq : r.opcode = data.u32At r.offset
  size_eq : r.declaredSize = data.u32At (r.offset + 4)
  size_ge : 8 ≤ r.declaredSize
  aligned : r.declaredSize % 4 = 0
  flags_eq : r.flags = 0
  end_le : r.offset + r.declaredSize ≤ data.size
  payload_eq : r.payload = data.extract (r.offset + 8) (r.offset + r.declaredSize)

/-- A place with a size that would fit the file but is not counted in whole dwords. -/
def MisalignedAt (data : Bytes) (position : Nat) : Prop :=
  8 ≤ data.u32At (position + 4) ∧ position + data.u32At (position + 4) ≤ data.size ∧
    data.u32At (position + 4) % 4 ≠ 0

/-- Reading cannot go on: too few bytes are left, or the size is too small or too
large. -/
def NoRecordAt (data : Bytes) (position : Nat) : Prop :=
  data.size < position + 8 ∨ data.u32At (position + 4) < 8 ∨
    data.size < position + data.u32At (position + 4)

/-- What reading skips between two places: blocks of eight bytes, one behind the
other, each with a misaligned size. -/
structure Gap (data : Bytes) (start : Nat) (blocks : List Nat) (stop : Nat) : Prop where
  blocks_eq : blocks = List.range' start blocks.length 8
  stop_eq : stop = start + 8 * blocks.length
  misaligned : ∀ position ∈ blocks, MisalignedAt data position

/-- Records of a file in their order, from one place to another, with a gap before
each of them and behind the last. The gaps have the given blocks together. -/
inductive Tiling (data : Bytes) : Nat → List Record → List Nat → Nat → Prop where
  | rest {start stop : Nat} {blocks : List Nat} (hGap : Gap data start blocks stop) :
      Tiling data start [] blocks stop
  | record {start stop : Nat} {r : Record} {rs : List Record} {blocks more : List Nat}
      (hGap : Gap data start blocks r.offset) (hStands : StandsIn data r)
      (later : Tiling data (r.offset + r.declaredSize) rs more stop) :
      Tiling data start (r :: rs) (blocks ++ more) stop

/-- The warning about a block that is skipped. -/
def skipWarning (data : Bytes) (position : Nat) : Warning :=
  .resynchronized position (.sizeNotInDwords (data.u32At (position + 4))) 8

/-- All that one step can do: it finds a record that stands in the file and goes on
where this ends, meets a misaligned size, or stops because there is nothing to
read. -/
theorem recordAt_meets (data : Bytes) (position : Nat) :
    (recordAt data position).Meets
      (fun r next => r.offset = position ∧ StandsIn data r ∧ next = r.offset + r.declaredSize)
      (fun fault => MisalignedAt data position ∧
        fault = .sizeNotInDwords (data.u32At (position + 4)))
      (NoRecordAt data position) := by
  simp only [recordAt]
  split
  case isTrue hRoom => exact .inl hRoom
  case isFalse hRoom =>
    split
    case isTrue hShort => exact .inr (.inl hShort)
    case isFalse hShort =>
      split
      case isTrue hPast => exact .inr (.inr hPast)
      case isFalse hPast =>
        split
        case isTrue hOdd => exact ⟨⟨Nat.not_lt.1 hShort, Nat.not_lt.1 hPast, hOdd⟩, rfl⟩
        case isFalse hDwords =>
          refine ⟨rfl, ⟨rfl, rfl, Nat.not_lt.1 hShort, Decidable.of_not_not hDwords, rfl,
            Nat.not_lt.1 hPast, ?_⟩, rfl⟩
          exact data.slice_eq_extract (by dsimp only; omega)

/-- Behind the end of the data there is no record. -/
theorem noRecordAt_of_size_le {data : Bytes} {position : Nat} (hEnd : data.size ≤ position) :
    NoRecordAt data position := .inl (by omega)

/-- A place in a file holds at most one record. -/
theorem StandsIn.eq_of_offset_eq {data : Bytes} {r r' : Record} (hStands : StandsIn data r)
    (hStands' : StandsIn data r') (hOffset : r.offset = r'.offset) : r = r' := by
  obtain ⟨opcode, size, flags, offset, payload⟩ := r
  obtain ⟨opcode', size', flags', offset', payload'⟩ := r'
  obtain ⟨hOpcode, hSize, -, -, hFlags, -, hPayload⟩ := hStands
  obtain ⟨hOpcode', hSize', -, -, hFlags', -, hPayload'⟩ := hStands'
  simp_all

/-- A record lies in the file with its type, its size and its payload. -/
theorem StandsIn.place_le {data : Bytes} {r : Record} (hStands : StandsIn data r) :
    r.offset + 8 + r.payload.size ≤ data.size := by
  have hSize := hStands.size_ge
  have hEnd := hStands.end_le
  rw [hStands.payload_eq, Array.size_extract]
  omega

/-- Where a record stands the position is not one to be skipped. -/
theorem StandsIn.not_misalignedAt {data : Bytes} {r : Record} (hStands : StandsIn data r) :
    ¬MisalignedAt data r.offset := by
  have hAligned := hStands.aligned
  rw [hStands.size_eq] at hAligned
  exact fun hMisaligned => hMisaligned.2.2 hAligned

theorem StandsIn.not_noRecordAt {data : Bytes} {r : Record} (hStands : StandsIn data r) :
    ¬NoRecordAt data r.offset := by
  have hSize := hStands.size_ge
  have hEnd := hStands.end_le
  rw [hStands.size_eq] at hSize hEnd
  unfold NoRecordAt
  omega

/-- So the reader finds a record there, and its size leads to the next position. -/
theorem StandsIn.recordAt_eq {data : Bytes} {r : Record} (hStands : StandsIn data r) :
    ∃ hAdvances, recordAt data r.offset = .found r (r.offset + r.declaredSize) hAdvances := by
  obtain ⟨r', next, hAdvances, hStep, hOffset, hStands', rfl⟩ :=
    (recordAt_meets data r.offset).exists_found
      (fun fault hBad => hStands.not_misalignedAt hBad.1) hStands.not_noRecordAt
  obtain rfl := hStands'.eq_of_offset_eq hStands hOffset
  exact ⟨hAdvances, hStep⟩

/-- Between a position and itself there are no skipped blocks. -/
theorem Gap.nil (data : Bytes) (position : Nat) : Gap data position [] position :=
  ⟨rfl, rfl, by simp⟩

/-- A gap is made longer by one misaligned block of eight bytes in front of it. -/
theorem Gap.cons {data : Bytes} {start stop : Nat} {blocks : List Nat}
    (hMisaligned : MisalignedAt data start) (hGap : Gap data (start + 8) blocks stop) :
    Gap data start (start :: blocks) stop where
  blocks_eq := by
    rw [List.length_cons, List.range'_succ, ← hGap.blocks_eq]
  stop_eq := by
    rw [hGap.stop_eq, List.length_cons]
    omega
  misaligned := by
    intro position hMem
    rcases List.mem_cons.1 hMem with rfl | hMem
    · exact hMisaligned
    · exact hGap.misaligned position hMem

/-- A block in front belongs to the first gap. -/
theorem Tiling.cons_block {data : Bytes} {start stop : Nat} {rs : List Record}
    {blocks : List Nat} (hMisaligned : MisalignedAt data start)
    (hTiling : Tiling data (start + 8) rs blocks stop) :
    Tiling data start rs (start :: blocks) stop := by
  cases hTiling with
  | rest hGap => exact .rest (hGap.cons hMisaligned)
  | record hGap hStands later => exact .record (hGap.cons hMisaligned) hStands later

/-- The way along an EMF stream is a tiling, with a warning for each block. -/
theorem tiling_of_path {data : Bytes} {start stop : Nat} {visits : List Visit}
    (hPath : Path data.size (recordAt data) resync start visits stop) :
    ∃ blocks, Tiling data start (Visit.records visits) blocks stop ∧
      Visit.warnings 0 resync visits = blocks.map (skipWarning data) := by
  induction hPath with
  | here position => exact ⟨[], .rest (.nil data position), rfl⟩
  | @found position next stop r hAdvances visits hBefore hStep later ih =>
      obtain ⟨rfl, hStands, rfl⟩ := (recordAt_meets data position).of_found hStep
      obtain ⟨blocks, hTiling, hWarnings⟩ := ih
      exact ⟨blocks, .record (.nil ..) hStands hTiling, hWarnings⟩
  | @skipped position stop fault visits hBefore hStep later ih =>
      obtain ⟨hMisaligned, rfl⟩ := (recordAt_meets data position).of_bad hStep
      obtain ⟨blocks, hTiling, hWarnings⟩ := ih
      refine ⟨position :: blocks, hTiling.cons_block hMisaligned, ?_⟩
      rw [Visit.warnings_cons_skipped, hWarnings, List.map_cons, Nat.zero_add]
      rfl

/-- Whatever is read lies behind the start, and each record behind those before it. -/
theorem Tiling.spread {data : Bytes} {start stop : Nat} {rs : List Record} {blocks : List Nat}
    (hTiling : Tiling data start rs blocks stop) :
    (∀ r ∈ rs, StandsIn data r ∧ start ≤ r.offset) ∧
      rs.Pairwise fun a b => a.offset + a.declaredSize ≤ b.offset := by
  induction hTiling with
  | rest hGap => exact ⟨by simp, .nil⟩
  | @record start stop r rs blocks more hGap hStands later ih =>
      obtain ⟨hBehind, hApart⟩ := ih
      have hStart : start ≤ r.offset := by
        have hStop := hGap.stop_eq
        omega
      refine ⟨?_, List.pairwise_cons.2 ⟨fun r' hMem => (hBehind r' hMem).2, hApart⟩⟩
      intro r' hMem
      rcases List.mem_cons.1 hMem with rfl | hMem
      · exact ⟨hStands, hStart⟩
      · obtain ⟨hStands', hAfter⟩ := hBehind r' hMem
        exact ⟨hStands', by omega⟩

/-- The walk behind a header covers the file up to the place where it ends. -/
theorem Header.exists_tiling (h : Header) (data : Bytes) :
    ∃ blocks stop, Tiling data h.headerSize (Visit.records (h.visits data)) blocks stop ∧
      Visit.warnings 0 resync (h.visits data) = blocks.map (skipWarning data) ∧
      (Visit.records (h.visits data)).length ≤ h.recordCount ∧
      ((Visit.records (h.visits data)).length = h.recordCount ∨ NoRecordAt data stop) := by
  obtain ⟨stop, hPath, hLength, hEnds⟩ := exists_path_walk data.size (recordAt data) resync
    h.headerSize h.recordCount
  obtain ⟨blocks, hTiling, hWarnings⟩ := tiling_of_path hPath
  refine ⟨blocks, stop, hTiling, hWarnings, hLength, ?_⟩
  rcases hEnds.room_eq_zero_or (recordAt_meets data stop) noRecordAt_of_size_le with hFull | hNone
  · exact .inl (Nat.le_antisymm hLength (Nat.sub_eq_zero_iff_le.1 hFull))
  · exact .inr hNone

/-- If the header is accepted, the file has a result, and no record in it can take this away. -/
theorem File.result_of_header {data : Bytes} {header : Header}
    (hHeader : Header.decode data = .ok header) :
    (File.decode data).result = .ok ⟨header, header.visits data⟩ := by
  rw [File.decode, hHeader]
  rfl

/-- A file that can be read is walked behind its header. -/
theorem File.decode_of_ok {data : Bytes} {file : File}
    (hDecode : (File.decode data).result = .ok file) :
    Header.decode data = .ok file.header ∧ file.visits = file.header.visits data ∧
      (File.decode data).warnings = Visit.warnings 0 resync file.visits := by
  unfold File.decode at hDecode ⊢
  cases hHeader : Header.decode data with
  | error error =>
      rw [hHeader] at hDecode
      cases hDecode
  | ok header =>
      rw [hHeader] at hDecode
      cases hDecode
      exact ⟨rfl, rfl, rfl⟩

/-- The records of a file, at most as many as its header counts, stand in the file
one behind the other from the end of the header on. All that lies between them
is blocks with misaligned sizes, one warning for each, and reading ends only
where the count is reached or nothing more can be read. -/
theorem decode_tiling (data : Bytes) (file : File)
    (hDecode : (File.decode data).result = .ok file) :
    ∃ blocks stop,
      Tiling data file.header.headerSize (Visit.records file.visits) blocks stop ∧
      (File.decode data).warnings = blocks.map (skipWarning data) ∧
      (Visit.records file.visits).length ≤ file.header.recordCount ∧
      (∀ r ∈ Visit.records file.visits,
        StandsIn data r ∧ file.header.headerSize ≤ r.offset) ∧
      ((Visit.records file.visits).Pairwise fun a b =>
        a.offset < b.offset ∧ a.offset + a.declaredSize ≤ b.offset) ∧
      ((Visit.records file.visits).length = file.header.recordCount ∨ NoRecordAt data stop) := by
  obtain ⟨-, hVisits, hReport⟩ := File.decode_of_ok hDecode
  obtain ⟨blocks, stop, hTiling, hWarnings, hLength, hEnd⟩ := file.header.exists_tiling data
  rw [← hVisits] at hTiling hWarnings hLength hEnd
  obtain ⟨hStand, hApart⟩ := hTiling.spread
  refine ⟨blocks, stop, hTiling, hReport.trans hWarnings, hLength, hStand, ?_, hEnd⟩
  refine hApart.imp_of_mem fun hMem _ hBehind => ⟨?_, hBehind⟩
  have hSize := (hStand _ hMem).1.size_ge
  omega

/-- A file with a header for five records. The sizes ten and thirteen are skipped,
the second of them together with the front of its own body, and the last size
runs past the end. -/
def misalignedFile : Bytes :=
  #[1, 0, 0, 0, 88, 0, 0, 0] ++ Array.replicate 32 0 ++ #[0x20, 0x45, 0x4D, 0x46] ++
    Array.replicate 8 0 ++ #[5, 0, 0, 0] ++ Array.replicate 32 0 ++
    #[33, 0, 0, 0, 10, 0, 0, 0, 33, 0, 0, 0, 8, 0, 0, 0, 43, 0, 0, 0, 13, 0, 0, 0,
      27, 0, 0, 0, 12, 0, 0, 0, 9, 9, 9, 9, 33, 0, 0, 0, 100, 0, 0, 0]

/-- A file of a misaligned block of eight bytes and two records. The block is skipped with a
warning and both records are found behind it. -/
theorem decode_tiling_misalignedFile :
    ∃ blocks stop,
      Tiling misalignedFile 88 [⟨33, 8, 0, 96, #[]⟩, ⟨27, 12, 0, 112, #[9, 9, 9, 9]⟩]
        blocks stop ∧
      (File.decode misalignedFile).warnings = blocks.map (skipWarning misalignedFile) ∧
      NoRecordAt misalignedFile stop := by
  have hDecode : (File.decode misalignedFile).result =
      .ok ⟨Header.read misalignedFile,
        [.skipped 88 (.sizeNotInDwords 10), .record ⟨33, 8, 0, 96, #[]⟩,
          .skipped 104 (.sizeNotInDwords 13), .record ⟨27, 12, 0, 112, #[9, 9, 9, 9]⟩]⟩ := by
    decide +kernel
  have hStart : (Header.read misalignedFile).headerSize = 88 := by decide +kernel
  have hCount : (Header.read misalignedFile).recordCount = 5 := by decide +kernel
  obtain ⟨blocks, stop, hTiling, hWarnings, -, -, -, hEnd⟩ := decode_tiling _ _ hDecode
  rw [hStart] at hTiling
  rw [hCount] at hEnd
  exact ⟨blocks, stop, hTiling, hWarnings, hEnd.resolve_left (by decide)⟩

end Metafile.Emf
