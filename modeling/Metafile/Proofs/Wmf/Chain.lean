import Metafile.Proofs.Record.Path
import Metafile.Wmf.File

/-! The records of a WMF file are a chain: each begins where the one before it
ends. Reading a file finds the longest chain behind the header, so nothing is
skipped and nothing is read twice. -/

namespace Metafile.Wmf

/-- A record that is in a file just as its own fields say. -/
structure StandsIn (data : Bytes) (r : Record) : Prop where
  size_eq : r.declaredSize = data.u32At r.offset
  size_ge : 3 ≤ r.declaredSize
  opcode_eq : r.opcode = data.u16At (r.offset + 4)
  opcode_ne : r.opcode ≠ 0
  flags_eq : r.flags = 0
  end_le : r.offset + 2 * r.declaredSize ≤ data.size
  payload_eq : r.payload = data.extract (r.offset + 6) (r.offset + 2 * r.declaredSize)

/-- Records of a file one behind the other, from where the first one begins to
where the last one ends. -/
inductive Chain (data : Bytes) : Nat → List Record → Nat → Prop where
  | nil (position : Nat) : Chain data position [] position
  | cons {stop : Nat} {r : Record} {rs : List Record} (hStands : StandsIn data r)
      (later : Chain data (r.offset + 2 * r.declaredSize) rs stop) :
      Chain data r.offset (r :: rs) stop

/-- No record can be read at the place: too few bytes are left, the size is too
small or too large, or the end record is there. -/
def NoRecordAt (data : Bytes) (position : Nat) : Prop :=
  data.size < position + 6 ∨ data.u32At position < 3 ∨
    data.size < position + 2 * data.u32At position ∨ data.u16At (position + 4) = 0

theorem StandsIn.not_noRecordAt {data : Bytes} {r : Record} (hStands : StandsIn data r) :
    ¬NoRecordAt data r.offset := by
  have hSize := hStands.size_ge
  have hEnd := hStands.end_le
  have hOpcode := hStands.opcode_ne
  rw [hStands.size_eq] at hSize hEnd
  rw [hStands.opcode_eq] at hOpcode
  unfold NoRecordAt
  omega

/-- A place in a file holds at most one record. -/
theorem StandsIn.eq_of_offset_eq {data : Bytes} {r r' : Record} (hStands : StandsIn data r)
    (hStands' : StandsIn data r') (hOffset : r.offset = r'.offset) : r = r' := by
  obtain ⟨opcode, size, flags, offset, payload⟩ := r
  obtain ⟨opcode', size', flags', offset', payload'⟩ := r'
  obtain ⟨hSize, -, hOpcode, -, hFlags, -, hPayload⟩ := hStands
  obtain ⟨hSize', -, hOpcode', -, hFlags', -, hPayload'⟩ := hStands'
  simp_all

/-- All that one step can do: it finds a record that stands in the file and goes on
where this ends, or it stops because there is none. -/
theorem recordAt_meets (data : Bytes) (position : Nat) :
    (recordAt data position).Meets
      (fun r next => r.offset = position ∧ StandsIn data r ∧ next = r.offset + 2 * r.declaredSize)
      (fun _ => False) (NoRecordAt data position) := by
  simp only [recordAt]
  split
  case isTrue hRoom => exact .inl hRoom
  case isFalse hRoom =>
    split
    case isTrue hShort => exact .inr (.inl hShort)
    case isFalse hShort =>
      split
      case isTrue hPast => exact .inr (.inr (.inl hPast))
      case isFalse hPast =>
        split
        case isTrue hEnd => exact .inr (.inr (.inr hEnd))
        case isFalse hEnd =>
          refine ⟨rfl, ⟨rfl, Nat.not_lt.1 hShort, rfl, hEnd, rfl, Nat.not_lt.1 hPast, ?_⟩, rfl⟩
          exact data.slice_eq_extract (by dsimp only; omega)

/-- A record that stands in the file is found there, and the next one is looked for right behind
it. -/
theorem StandsIn.recordAt_eq {data : Bytes} {r : Record} (hStands : StandsIn data r) :
    ∃ hAdvances, recordAt data r.offset = .found r (r.offset + 2 * r.declaredSize) hAdvances := by
  obtain ⟨r', next, hAdvances, hStep, hOffset, hStands', rfl⟩ :=
    (recordAt_meets data r.offset).exists_found (fun _ => id) hStands.not_noRecordAt
  obtain rfl := hStands'.eq_of_offset_eq hStands hOffset
  exact ⟨hAdvances, hStep⟩

theorem noRecordAt_of_size_le {data : Bytes} {position : Nat} (hEnd : data.size ≤ position) :
    NoRecordAt data position := .inl (by omega)

/-- The way along a WMF stream meets a chain of records and nothing else. -/
theorem chain_of_path {data : Bytes} {start stop : Nat} {visits : List Visit}
    (hPath : Path data.size (recordAt data) resync start visits stop) :
    Chain data start (Visit.records visits) stop ∧ Visit.warnings 0 resync visits = [] := by
  induction hPath with
  | here position => exact ⟨.nil position, rfl⟩
  | @found position next stop r hAdvances visits hBefore hStep later ih =>
      obtain ⟨rfl, hStands, rfl⟩ := (recordAt_meets data position).of_found hStep
      exact ⟨.cons hStands ih.1, ih.2⟩
  | @skipped position stop fault visits hBefore hStep later ih =>
      exact ((recordAt_meets data position).of_bad hStep).elim

/-- Any chain that the limit leaves room for is found. -/
theorem Chain.isPrefix_walk {data : Bytes} {start stop : Nat} {rs : List Record}
    (hChain : Chain data start rs stop) {limit : Nat} (hLimit : rs.length ≤ limit) :
    rs <+: Visit.records (walk data.size (recordAt data) resync start limit) := by
  induction hChain generalizing limit with
  | nil position => exact List.nil_prefix
  | @cons stop r rs hStands later ih =>
      obtain ⟨hAdvances, hStep⟩ := hStands.recordAt_eq
      have hBefore : r.offset < data.size := by
        have hSize := hStands.size_ge
        have hEnd := hStands.end_le
        omega
      rw [List.length_cons] at hLimit
      rw [walk_found hBefore (by omega) hStep, Visit.records_cons_record, List.cons_prefix_cons]
      exact ⟨rfl, ih (by omega)⟩

/-- Where the records of a file begin: behind as many words as its header counts,
yet never inside the eighteen bytes of its fixed fields. -/
def File.start (placed : Bool) (file : File) : Nat :=
  (if placed then 22 else 0) + max 18 (2 * file.header.headerSizeWords)

/-- A file that can be read is walked from the end of its header. Its other
warnings are those about the placeable header. -/
theorem File.visits_of_decode {data : Bytes} {placed : Bool} {limit : Nat} {file : File}
    (hDecode : (File.decode placed limit data).result = .ok file) :
    file.visits = walk data.size (recordAt data) resync (file.start placed) limit ∧
      (File.decode placed limit data).warnings =
        (if placed then (Placeable.read data).warnings else []) ++
          Visit.warnings 0 resync file.visits := by
  simp only [File.decode] at hDecode ⊢
  generalize hStart : (if placed = true then Placeable.size else 0) = start at hDecode ⊢
  generalize hPlaceable : (if placed = true then some (Placeable.read data) else none) = placeable
    at hDecode ⊢
  split at hDecode
  case isTrue hShort => simp [Report.fail] at hDecode
  case isFalse hPlaced =>
    split at hDecode
    case isTrue hShort => simp [Report.fail] at hDecode
    case isFalse hRoom =>
      split at hDecode
      case isTrue hNone => simp [Report.fail] at hDecode
      case isFalse hWords =>
        rw [if_neg hPlaced, if_neg hRoom, if_neg hWords]
        cases hDecode
        subst hStart hPlaceable
        refine ⟨rfl, ?_⟩
        cases placed <;> rfl

/-- A placeable header warns of its key and its checksum, and skips nothing. -/
theorem Placeable.resynchronized_not_mem_warnings (p : Placeable) (position : Nat) (fault : Fault)
    (bytes : Nat) : .resynchronized position fault bytes ∉ p.warnings := by
  unfold Placeable.warnings
  split <;> split <;> simp

/-- The records of a file are the longest chain behind its header that the limit
allows: they form a chain, and every chain from there is a first part of it.
Reading never looks for a record anywhere else, and it ends only at the limit
or where there is no record. -/
theorem decode_longest_chain (data : Bytes) (format : Format) (limit : Nat) (file : File)
    (hDecode : (File.decode (format == .placeableWmf) limit data).result = .ok file) :
    ∃ stop, Chain data (file.start (format == .placeableWmf)) (Visit.records file.visits) stop ∧
      (Visit.records file.visits).length ≤ limit ∧
      (∀ rs last, Chain data (file.start (format == .placeableWmf)) rs last → rs.length ≤ limit →
        rs <+: Visit.records file.visits) ∧
      (∀ position fault bytes, .resynchronized position fault bytes ∉
        (File.decode (format == .placeableWmf) limit data).warnings) ∧
      ((Visit.records file.visits).length = limit ∨ NoRecordAt data stop) := by
  obtain ⟨hVisits, hWarnings⟩ := File.visits_of_decode hDecode
  obtain ⟨stop, hPath, hLength, hEnds⟩ := exists_path_walk data.size (recordAt data) resync
    (file.start (format == .placeableWmf)) limit
  rw [← hVisits] at hPath hLength hEnds
  obtain ⟨hChain, hNoSkips⟩ := chain_of_path hPath
  refine ⟨stop, hChain, hLength, ?_, ?_, ?_⟩
  · intro rs last hOther hRoom
    rw [hVisits]
    exact hOther.isPrefix_walk hRoom
  · intro position fault bytes hMem
    rw [hWarnings, hNoSkips, List.append_nil] at hMem
    split at hMem
    · exact Placeable.resynchronized_not_mem_warnings _ _ _ _ hMem
    · cases hMem
  · rcases hEnds.room_eq_zero_or (recordAt_meets data stop) noRecordAt_of_size_le with hFull | hNone
    · exact .inl (Nat.le_antisymm hLength (Nat.sub_eq_zero_iff_le.1 hFull))
    · exact .inr hNone

/-- A placeable file with two bytes behind its header of ten words, two records,
the end record, and bytes behind it. -/
def paddedFile : Bytes :=
  #[0xD7, 0xCD, 0xC6, 0x9A, 0, 0, 0, 0, 0, 0, 100, 0, 50, 0, 72, 0, 0, 0, 0, 0, 0, 0,
    1, 0, 10, 0, 0, 3, 0, 0, 0, 0, 0, 0, 0, 0, 0, 0, 0, 0, 0, 0,
    5, 0, 0, 0, 0x14, 2, 1, 0, 2, 0, 3, 0, 0, 0, 0x1E, 0, 3, 0, 0, 0, 0, 0, 7, 7, 7]

theorem decode_longest_chain_paddedFile :
    ∃ stop, Chain paddedFile 42
      [⟨0x214, 5, 0, 42, #[1, 0, 2, 0]⟩, ⟨0x1E, 3, 0, 52, #[]⟩] stop ∧
      NoRecordAt paddedFile stop := by
  have hDecode : (File.decode (Format.placeableWmf == .placeableWmf) 10 paddedFile).result =
      .ok ⟨Header.read (some (Placeable.read paddedFile)) paddedFile 22,
        [.record ⟨0x214, 5, 0, 42, #[1, 0, 2, 0]⟩, .record ⟨0x1E, 3, 0, 52, #[]⟩]⟩ := by
    decide +kernel
  obtain ⟨stop, hChain, -, -, -, hEnd⟩ := decode_longest_chain _ _ _ _ hDecode
  exact ⟨stop, hChain, hEnd.resolve_left (by decide)⟩

end Metafile.Wmf
