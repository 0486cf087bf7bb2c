import Metafile.Proofs.Emf.Layout
import Metafile.Proofs.Plus.Containment
import Metafile.Proofs.Replay.Records
import Metafile.Proofs.Wmf.Headers

/-! Files that are cut off. What can still be read of such a file is the front of what
the whole file holds: the same header, and the first of its records, so that a
replay of them draws the front of the whole picture. -/

namespace Metafile

/-- A walk along the front of a stream finds the first part of what a walk along the
whole stream finds, if each step does the same in both unless it stops. -/
theorem walk_isPrefix {size whole : Nat} {step full : (position : Nat) → Step position}
    (hSize : size ≤ whole)
    (hSame : ∀ position, step position = .stop ∨ step position = full position)
    (resync position limit : Nat) :
    walk size step resync position limit <+: walk whole full resync position limit := by
  induction position, limit using walk.induct size step resync with
  | case1 position limit hGoes r next hAdvances hStep ih =>
      have hFull : full position = .found r next hAdvances := by
        rcases hSame position with hStop | hFull
        · rw [hStop] at hStep
          cases hStep
        · exact hFull.symm.trans hStep
      rw [walk_found hGoes.1 hGoes.2 hStep,
        walk_found (Nat.lt_of_lt_of_le hGoes.1 hSize) hGoes.2 hFull, List.cons_prefix_cons]
      exact ⟨rfl, ih⟩
  | case2 position limit hGoes fault hStep ih =>
      have hFull : full position = .bad fault := by
        rcases hSame position with hStop | hFull
        · rw [hStop] at hStep
          cases hStep
        · exact hFull.symm.trans hStep
      rw [walk_bad hGoes.1 hGoes.2 hStep,
        walk_bad (Nat.lt_of_lt_of_le hGoes.1 hSize) hGoes.2 hFull, List.cons_prefix_cons]
      exact ⟨rfl, ih⟩
  | case3 position limit hGoes hStep =>
      rw [walk_stop hStep]
      exact List.nil_prefix
  | case4 position limit hStays =>
      rw [walk_of_not hStays]
      exact List.nil_prefix

namespace Wmf

/-- Records that end inside the front of a file are in the front just as they are in
the whole file. -/
theorem standsIn_append_iff {front back : Bytes} {r : Record}
    (hEnd : r.offset + 2 * r.declaredSize ≤ front.size) :
    StandsIn (front ++ back) r ↔ StandsIn front r := by
  have hWhole : r.offset + 2 * r.declaredSize ≤ (front ++ back).size := by
    rw [Array.size_append]
    omega
  have hPayload : (front ++ back).extract (r.offset + 6) (r.offset + 2 * r.declaredSize) =
      front.extract (r.offset + 6) (r.offset + 2 * r.declaredSize) :=
    Bytes.extract_append hEnd back
  have hFields : 3 ≤ r.declaredSize → Bytes.u32At (front ++ back) r.offset = front.u32At r.offset ∧
      Bytes.u16At (front ++ back) (r.offset + 4) = front.u16At (r.offset + 4) :=
    fun hSize => ⟨Bytes.field_append (by omega) back, Bytes.field_append (by omega) back⟩
  constructor
  · intro h
    obtain ⟨hSize, hOpcode⟩ := hFields h.size_ge
    exact ⟨h.size_eq.trans hSize, h.size_ge, h.opcode_eq.trans hOpcode, h.opcode_ne, h.flags_eq,
      hEnd, h.payload_eq.trans hPayload⟩
  · intro h
    obtain ⟨hSize, hOpcode⟩ := hFields h.size_ge
    exact ⟨h.size_eq.trans hSize.symm, h.size_ge, h.opcode_eq.trans hOpcode.symm, h.opcode_ne,
      h.flags_eq, hWhole, h.payload_eq.trans hPayload.symm⟩

/-- A chain in the front of a file is a chain in the whole file. -/
theorem Chain.append {front : Bytes} {start stop : Nat} {rs : List Record}
    (hChain : Chain front start rs stop) (back : Bytes) : Chain (front ++ back) start rs stop := by
  induction hChain with
  | nil position => exact .nil position
  | cons hStands later ih => exact .cons ((standsIn_append_iff hStands.end_le).2 hStands) ih

/-- All records of a chain lie behind its start and inside the file. -/
theorem Chain.bounds {data : Bytes} {start stop : Nat} {rs : List Record}
    (hChain : Chain data start rs stop) :
    ∀ r ∈ rs, start ≤ r.offset ∧ r.offset + 2 * r.declaredSize ≤ data.size := by
  induction hChain with
  | nil position => simp
  | @cons stop r rs hStands later ih =>
      intro r' hMem
      rcases List.mem_cons.1 hMem with rfl | hMem
      · exact ⟨Nat.le_refl _, hStands.end_le⟩
      · obtain ⟨hStart, hEnd⟩ := ih r' hMem
        exact ⟨by omega, hEnd⟩

/-- Those records of a chain that end inside the front of a file are a chain there. -/
theorem Chain.filter_front {front back : Bytes} {start stop : Nat} {rs : List Record}
    (hChain : Chain (front ++ back) start rs stop) :
    ∃ last, Chain front start
      (rs.filter fun r => r.offset + 2 * r.declaredSize ≤ front.size) last := by
  induction hChain with
  | nil position => exact ⟨position, .nil position⟩
  | @cons stop r rs hStands later ih =>
      by_cases hEnd : r.offset + 2 * r.declaredSize ≤ front.size
      · obtain ⟨last, hFront⟩ := ih
        rw [List.filter_cons_of_pos (by simpa using hEnd)]
        exact ⟨last, .cons ((standsIn_append_iff hEnd).1 hStands) hFront⟩
      · -- The records behind one that runs past the front run past it too.
        have hNone :
            (r :: rs).filter (fun r => r.offset + 2 * r.declaredSize ≤ front.size) = [] := by
          refine List.filter_eq_nil_iff.2 fun r' hMem => ?_
          rw [decide_eq_true_eq]
          rcases List.mem_cons.1 hMem with rfl | hMem
          · exact hEnd
          · have hBehind := (later.bounds r' hMem).1
            omega
        rw [hNone]
        exact ⟨r.offset, .nil r.offset⟩

/-- Of a file that is cut off, those records are read that end before the cut. -/
theorem File.decode_append {placed : Bool} {limit : Nat} {front : Bytes} {file : File}
    (hDecode : (File.decode placed limit front).result = .ok file) (back : Bytes) :
    ∃ whole, (File.decode placed limit (front ++ back)).result = .ok whole ∧
      whole.header = file.header ∧ Visit.records file.visits <+: Visit.records whole.visits ∧
      Visit.records file.visits = (Visit.records whole.visits).filter fun r =>
        r.offset + 2 * r.declaredSize ≤ front.size := by
  obtain ⟨hRoom, hWords, rfl⟩ := File.decode_eq_ok_iff.1 hDecode
  have hHeader := Header.ofFile_append hRoom back
  have hRoom' : Header.start placed + 18 ≤ (front ++ back).size := by
    rw [Array.size_append]
    omega
  refine ⟨_, File.decode_eq_ok_iff.2 ⟨hRoom', hHeader ▸ hWords, rfl⟩, hHeader, ?_⟩
  rw [hHeader]
  generalize Header.start placed + max 18 (2 * (Header.ofFile placed front).headerSizeWords) = start
  obtain ⟨_, hFrontPath, hFrontLength, -⟩ := exists_path_walk front.size (recordAt front) resync
    start limit
  obtain ⟨_, hWholePath, hWholeLength, -⟩ := exists_path_walk (front ++ back).size
    (recordAt (front ++ back)) resync start limit
  have hFront := (chain_of_path hFrontPath).1
  obtain ⟨_, hKept⟩ := (chain_of_path hWholePath).1.filter_front
  -- What is read of the front is a chain in the whole file, and what ends before the cut is a
  -- chain in the front, so each of them is a first part of the other.
  have hPrefix := (hFront.append back).isPrefix_walk hFrontLength
  have hKeptPrefix := hKept.isPrefix_walk (Nat.le_trans (List.length_filter_le ..) hWholeLength)
  have hFrontKept := hPrefix.filter fun r => r.offset + 2 * r.declaredSize ≤ front.size
  rw [List.filter_eq_self.2 fun r hMem => decide_eq_true (hFront.bounds r hMem).2] at hFrontKept
  exact ⟨hPrefix, hFrontKept.eq_of_length
    (Nat.le_antisymm hFrontKept.length_le hKeptPrefix.length_le)⟩

end Wmf

namespace Emf

/-- A record that is not in the front of a file as a whole cannot be found there, and
all others are found as in the whole file. -/
theorem recordAt_append (front back : Bytes) (position : Nat) :
    recordAt front position = .stop ∨
      recordAt front position = recordAt (front ++ back) position := by
  by_cases hRoom : position + 8 ≤ front.size
  · have hType : Bytes.u32At (front ++ back) position = front.u32At position :=
      Bytes.field_append (by omega) back
    have hSize : Bytes.u32At (front ++ back) (position + 4) = front.u32At (position + 4) :=
      Bytes.field_append (by omega) back
    by_cases hFits : position + front.u32At (position + 4) ≤ front.size
    · right
      have hPayload : Bytes.slice (front ++ back) (position + 8)
          (front.u32At (position + 4) - 8) = front.slice (position + 8)
            (front.u32At (position + 4) - 8) := Bytes.extract_append (by omega) back
      have hWhole : ¬front.size + back.size < position + 8 := by omega
      have hWhole' : ¬front.size + back.size < position + front.u32At (position + 4) := by omega
      simp only [recordAt, hType, hSize, hPayload, Array.size_append, hWhole, hWhole',
        Nat.not_lt.2 hRoom, Nat.not_lt.2 hFits, if_false]
    · left
      simp [recordAt, Nat.not_le.1 hFits]
  · left
    rw [recordAt, if_pos (by omega)]

/-- A header that can be read in the front of a file is the header of the whole file. -/
theorem Header.decode_append {front : Bytes} {header : Header}
    (hDecode : Header.decode front = .ok header) (back : Bytes) :
    Header.decode (front ++ back) = .ok header := by
  obtain ⟨hSize, hSignature, hType, hHeaderSize, rfl⟩ := Header.decode_eq_ok_iff.1 hDecode
  have hRead := Header.read_append hSize back
  rw [Header.decode_eq_ok_iff, hRead, Array.size_append]
  exact ⟨Nat.le_add_right_of_le hSize, hSignature, hType, hHeaderSize, rfl⟩

theorem Header.records_append_isPrefix (h : Header) (front back : Bytes) :
    Visit.records (h.visits front) <+: Visit.records (h.visits (front ++ back)) := by
  have hSize : front.size ≤ (front ++ back).size := by
    rw [Array.size_append]
    exact Nat.le_add_right ..
  exact (walk_isPrefix hSize (recordAt_append front back) resync h.headerSize
    h.recordCount).filterMap _

theorem File.decode_append {front : Bytes} {file : File}
    (hDecode : (File.decode front).result = .ok file) (back : Bytes) :
    ∃ whole, (File.decode (front ++ back)).result = .ok whole ∧ whole.header = file.header ∧
      Visit.records file.visits <+: Visit.records whole.visits := by
  obtain ⟨hHeader, hVisits, -⟩ := File.decode_of_ok hDecode
  refine ⟨_, File.result_of_header (Header.decode_append hHeader back), rfl, ?_⟩
  rw [hVisits]
  exact file.header.records_append_isPrefix front back

end Emf

/-- Comments that can still be read are there as a whole, and so are the records inside
them. -/
theorem Plus.File.decode_append {limit : Nat} {front : Bytes} {file : Plus.File}
    (hDecode : (Plus.File.decode limit front).result = .ok file) (back : Bytes) :
    ∃ whole, (Plus.File.decode limit (front ++ back)).result = .ok whole ∧
      whole.header = file.header ∧ file.records <+: whole.records := by
  have hHeader := Plus.File.header_of_ok hDecode
  have hFile := Except.ok.inj ((Plus.File.result_of_header hHeader).symm.trans hDecode)
  refine ⟨_, Plus.File.result_of_header (Emf.Header.decode_append hHeader back), rfl, ?_⟩
  rw [← hFile]
  obtain ⟨rest, hRest⟩ := file.header.records_append_isPrefix front back
  rw [← hRest, List.flatMap_append]
  exact List.prefix_append ..

theorem Report.result_map_eq_ok_iff {α β : Type} {f : α → β} {report : Report α} {value : β} :
    (report.map f).result = .ok value ↔
      ∃ source, report.result = .ok source ∧ f source = value := by
  cases hResult : report.result <;> simp [Report.map, hResult, Except.map]

namespace Format

/-- Of a WMF file that is cut off, the records up to the cut are read; see
`Wmf.File.decode_append`. -/
theorem decode_append {format : Format} {limits : Limits} {front : Bytes} {header : Header}
    {rs : List Record} (hDecode : (format.decode limits front).result = .ok (header, rs))
    (back : Bytes) :
    ∃ whole, (format.decode limits (front ++ back)).result = .ok (header, whole) ∧
      rs <+: whole ∧
      (format = .wmf ∨ format = .placeableWmf →
        rs = whole.filter fun r => r.offset + 2 * r.declaredSize ≤ front.size) := by
  cases format with
  | emf =>
      obtain ⟨file, hFile, hResult⟩ := Report.result_map_eq_ok_iff.1 hDecode
      obtain ⟨whole, hWhole, hHeader, hPrefix⟩ := Emf.File.decode_append hFile back
      cases hResult
      exact ⟨Visit.records whole.visits,
        Report.result_map_eq_ok_iff.2 ⟨whole, hWhole, by rw [hHeader]⟩, hPrefix, by simp⟩
  | emfPlus =>
      obtain ⟨file, hFile, hResult⟩ := Report.result_map_eq_ok_iff.1 hDecode
      obtain ⟨whole, hWhole, hHeader, hPrefix⟩ := Plus.File.decode_append hFile back
      cases hResult
      exact ⟨whole.records, Report.result_map_eq_ok_iff.2 ⟨whole, hWhole, by rw [hHeader]⟩,
        hPrefix, by simp⟩
  | placeableWmf | wmf | unknown =>
      obtain ⟨file, hFile, hResult⟩ := Report.result_map_eq_ok_iff.1 hDecode
      obtain ⟨whole, hWhole, hHeader, hPrefix, hExact⟩ := Wmf.File.decode_append hFile back
      cases hResult
      exact ⟨Visit.records whole.visits,
        Report.result_map_eq_ok_iff.2 ⟨whole, hWhole, by rw [hHeader]⟩, hPrefix, fun _ => hExact⟩

/-- A file that is cut off somewhere and can still be read has the header of the whole
file and the first of its records, and it draws the first part of the whole
picture. A WMF file keeps precisely the records that end before the cut. -/
theorem decode_truncated (format : Format) (limits : Limits) (data : Bytes) (cut : Nat)
    (hCut : cut ≤ data.size) (header : Header) (rs : List Record)
    (hDecode : (format.decode limits (data.extract 0 cut)).result = .ok (header, rs)) :
    ∃ whole, (format.decode limits data).result = .ok (header, whole) ∧ rs <+: whole ∧
      (∀ o, (Picture.replay ⟨format, some header, rs, none⟩ o).calls <+:
        (Picture.replay ⟨format, some header, whole, none⟩ o).calls) ∧
      (format = .wmf ∨ format = .placeableWmf →
        rs = whole.filter fun r => r.offset + 2 * r.declaredSize ≤ cut) := by
  have hData : data.extract 0 cut ++ data.extract cut data.size = data := by
    simp [Array.extract_append_extract, hCut]
  have hSize : (data.extract 0 cut).size = cut := by
    rw [Array.size_extract]
    omega
  obtain ⟨whole, hWhole, hPrefix, hExact⟩ := decode_append hDecode (data.extract cut data.size)
  rw [hData] at hWhole
  rw [hSize] at hExact
  exact ⟨whole, hWhole, hPrefix,
    fun o => Picture.calls_replay_isPrefix format (some header) none o hPrefix, hExact⟩

/-- The front of `Wmf.paddedFile`. The cut is inside the second of its two records. -/
def cutFile : Bytes :=
  #[0xD7, 0xCD, 0xC6, 0x9A, 0, 0, 0, 0, 0, 0, 100, 0, 50, 0, 72, 0, 0, 0, 0, 0, 0, 0,
    1, 0, 10, 0, 0, 3, 0, 0, 0, 0, 0, 0, 0, 0, 0, 0, 0, 0, 0, 0,
    5, 0, 0, 0, 0x14, 2, 1, 0, 2, 0, 3, 0, 0, 0, 0x1E]

theorem decode_truncated_paddedFile :
    ∃ whole,
      (Format.decode .placeableWmf .standard Wmf.paddedFile).result =
        .ok (.wmf (Wmf.Header.ofFile true cutFile), whole) ∧
      [⟨0x214, 5, 0, 42, #[1, 0, 2, 0]⟩] =
        whole.filter fun r => r.offset + 2 * r.declaredSize ≤ 57 := by
  have hCut : Wmf.paddedFile.extract 0 57 = cutFile := by decide +kernel
  have hDecode : (Format.decode .placeableWmf .standard (Wmf.paddedFile.extract 0 57)).result =
      .ok (.wmf (Wmf.Header.ofFile true cutFile), [⟨0x214, 5, 0, 42, #[1, 0, 2, 0]⟩]) := by
    rw [hCut]
    decide +kernel
  obtain ⟨whole, hWhole, -, -, hExact⟩ :=
    decode_truncated .placeableWmf .standard Wmf.paddedFile 57 (by decide) _ _ hDecode
  refine ⟨whole, ?_, ?_⟩
  · exact hWhole
  · exact hExact (.inr rfl)

end Format

end Metafile
