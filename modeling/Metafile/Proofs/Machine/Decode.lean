import Metafile.Picture
import Metafile.Proofs.Bytes.Part
import Metafile.Proofs.Emf.Tiling
import Metafile.Proofs.Machine.Stream
import Metafile.Proofs.Plus.Containment

/-! Decoding on the machine, with every operation on sizes and positions in the place and order
in which it is carried out. -/

namespace Metafile.Machine

open Word

namespace Wmf

open Metafile.Wmf

def next (r : Reader) : Option Found := do
  let offset := r.position
  if (← r.remaining) < 6 then return .stop
  let (words, r) := r.u32
  let (function, r) := r.u16
  if words < 3 then return .stop
  let length ← mul (← sub words 3) 2
  if (← r.remaining) < length then return .stop
  if function = Kind.eof.code then return .stop
  let (payload, r) ← r.bytes length
  return .record ⟨function, words, 0, offset, payload⟩ r

/-- The fixed fields of the headers are read one behind the other, which moves the reader behind
them and stops nowhere. -/
def decode (placed : Bool) (limit : Nat) (data : Bytes) : Option (Report File) := do
  if placed && decide (data.size < Placeable.size) then
    return .fail (.truncated Placeable.size data.size) []
  let placeable := if placed then some (Placeable.read data) else none
  let warnings := placeable.elim [] Placeable.warnings
  let r : Reader := if placed then Reader.skip ⟨data, 0⟩ Placeable.size else ⟨data, 0⟩
  let start := r.position
  if data.size < (← add start Wmf.Header.size) then
    return .fail (.truncated (← add start Wmf.Header.size) data.size) warnings
  let header := Wmf.Header.read placeable data start
  let r := r.skip Wmf.Header.size
  if header.headerSizeWords = 0 then return .fail .withoutWords warnings
  let first ← add start (← mul header.headerSizeWords 2)
  let visits ← walk next resync (data.size + 1) (r.seek (max first r.position)) limit
  return .done ⟨header, visits⟩ (warnings ++ Visit.warnings 0 resync visits)

variable {data : Bytes}

/-- Finding a record stops nowhere, inside the buffer and at its end. -/
theorem next_eq (hSize : data.size < 2 ^ 63) {position : Nat} (hInside : position ≤ data.size) :
    next ⟨data, position⟩ = some (.ofStep data (recordAt data position)) := by
  simp only [next, recordAt, Reader.remaining_eq hInside, Option.bind_eq_bind, Option.bind_some]
  by_cases hRoom : data.size < position + 6
  · rw [if_pos (by omega), if_pos hRoom]
    rfl
  rw [if_neg (by omega), if_neg hRoom, Reader.u32_eq hSize (by omega)]
  dsimp only
  rw [Reader.u16_eq hSize (by omega)]
  dsimp only
  by_cases hShort : data.u32At position < 3
  · rw [if_pos hShort, dif_pos hShort]
    rfl
  have hLength : mul (data.u32At position - 3) 2 = some ((data.u32At position - 3) * 2) := by
    have hWords : data.u32At position < 256 ^ 4 := Bytes.field_lt ..
    exact mul_eq (by omega)
  rw [if_neg hShort, dif_neg hShort, sub_eq (Nat.not_lt.1 hShort), Option.bind_some, hLength,
    Option.bind_some, Reader.remaining_eq (by omega), Option.bind_some]
  by_cases hPast : data.size < position + 2 * data.u32At position
  · rw [if_pos (by omega), if_pos hPast]
    rfl
  rw [if_neg (by omega), if_neg hPast]
  by_cases hEof : data.u16At (position + 4) = Kind.eof.code
  · rw [if_pos hEof, if_pos hEof]
    rfl
  rw [if_neg hEof, if_neg hEof, Reader.bytes_eq hSize (by omega), Option.bind_some]
  have hNext : position + 4 + 2 + (data.u32At position - 3) * 2 =
      position + 2 * data.u32At position := by omega
  rw [hNext, Nat.mul_comm]
  rfl

/-- Decoding WMF has a value on every buffer of the machine, and this is what the format reports.
The walk has as many rounds as the buffer has bytes and one more, which are never used up. -/
theorem decode_eq (hSize : data.size < 2 ^ 63) (placed : Bool) (limit : Nat) :
    decode placed limit data = some (File.decode placed limit data) := by
  simp only [decode, File.decode, Option.bind_eq_bind]
  by_cases hCut : (placed && decide (data.size < Placeable.size)) = true
  · rw [if_pos hCut, if_pos hCut]
    rfl
  rw [if_neg hCut, if_neg hCut]
  have hReader : (if placed = true then Reader.skip ⟨data, 0⟩ Placeable.size else ⟨data, 0⟩) =
      ⟨data, if placed = true then Placeable.size else 0⟩ := by
    cases placed with
    | false => rfl
    | true =>
        have hRoom : 0 + Placeable.size ≤ data.size := by
          simpa using hCut
        rw [if_pos rfl, if_pos rfl, Reader.skip_of_fits hSize hRoom, Nat.zero_add]
  have hStart : (if placed = true then Placeable.size else 0) ≤ 22 := by
    split <;> decide
  rw [hReader]
  generalize (if placed = true then Placeable.size else 0) = start at hStart ⊢
  generalize (if placed = true then some (Placeable.read data) else none) = placeable
  have hHeaders : add start Wmf.Header.size = some (start + 18) :=
    add_eq (show start + 18 < 2 ^ 64 by omega)
  simp only [hHeaders, Option.bind_some]
  by_cases hShort : data.size < start + 18
  · rw [if_pos hShort, if_pos (show data.size < start + Wmf.Header.size from hShort)]
    rfl
  rw [if_neg hShort, if_neg (show ¬data.size < start + Wmf.Header.size from hShort)]
  have hSmall : (Wmf.Header.read placeable data start).headerSizeWords < 256 ^ 2 :=
    Bytes.field_lt ..
  generalize Wmf.Header.read placeable data start = header at hSmall ⊢
  by_cases hNone : header.headerSizeWords = 0
  · rw [if_pos hNone, if_pos hNone]
    rfl
  have hFirst : max (start + header.headerSizeWords * 2) (start + 18) =
      start + max Wmf.Header.size (2 * header.headerSizeWords) := by
    show _ = start + max 18 _
    omega
  have hBehind : Reader.skip ⟨data, start⟩ Wmf.Header.size = ⟨data, start + 18⟩ :=
    Reader.skip_of_fits hSize (Nat.not_lt.1 hShort)
  have hWalk : walk next resync (data.size + 1) _ limit = _ :=
    walk_eq hSize (fun _ hInside => next_eq hSize hInside)
      (Nat.min_le_right (start + max Wmf.Header.size (2 * header.headerSizeWords)) data.size)
      (by omega) limit
  rw [walk_min] at hWalk
  rw [if_neg hNone, if_neg hNone, mul_eq (by omega), Option.bind_some, add_eq (by omega),
    Option.bind_some, hBehind, hFirst]
  exact congrArg (Option.bind · _) hWalk

end Wmf

namespace Emf

open Metafile.Emf

def next (r : Reader) : Option Found := do
  let offset := r.position
  if (← r.remaining) < 8 then return .stop
  let (recordType, r) := r.u32
  let (size, r) := r.u32
  if size < 8 then return .stop
  let length ← sub size 8
  if (← r.remaining) < length then return .stop
  if size % 4 ≠ 0 then return .bad (.sizeNotInDwords size)
  let (payload, r) ← r.bytes length
  return .record ⟨recordType, size, 0, offset, payload⟩ r

/-- The way along the records behind a header. -/
def visits (h : Emf.Header) (data : Bytes) : Option (List Visit) :=
  walk next resync (data.size + 1) (Reader.seek ⟨data, 0⟩ h.headerSize) h.recordCount

def decode (data : Bytes) : Option (Report File) := do
  match Emf.Header.decode data with
  | .error error => return .fail error []
  | .ok header =>
    let visits ← visits header data
    return .done ⟨header, visits⟩ (Visit.warnings 0 resync visits)

variable {data : Bytes}

theorem next_eq (hSize : data.size < 2 ^ 63) {position : Nat} (hInside : position ≤ data.size) :
    next ⟨data, position⟩ = some (.ofStep data (recordAt data position)) := by
  simp only [next, recordAt, Reader.remaining_eq hInside, Option.bind_eq_bind, Option.bind_some]
  by_cases hRoom : data.size < position + 8
  · rw [if_pos (by omega), if_pos hRoom]
    rfl
  rw [if_neg (by omega), if_neg hRoom, Reader.u32_eq hSize (by omega)]
  dsimp only
  rw [Reader.u32_eq hSize (by omega)]
  dsimp only
  by_cases hShort : data.u32At (position + 4) < 8
  · rw [if_pos hShort, dif_pos hShort]
    rfl
  rw [if_neg hShort, dif_neg hShort, sub_eq (Nat.not_lt.1 hShort), Option.bind_some,
    Reader.remaining_eq (by omega), Option.bind_some]
  by_cases hPast : data.size < position + data.u32At (position + 4)
  · rw [if_pos (by omega), if_pos hPast]
    rfl
  rw [if_neg (by omega), if_neg hPast]
  by_cases hOdd : data.u32At (position + 4) % 4 ≠ 0
  · rw [if_pos hOdd, if_pos hOdd]
    rfl
  rw [if_neg hOdd, if_neg hOdd, Reader.bytes_eq hSize (by omega), Option.bind_some]
  have hNext : position + 4 + 4 + (data.u32At (position + 4) - 8) =
      position + data.u32At (position + 4) := by omega
  rw [hNext]
  rfl

/-- The whole way along a file stops nowhere, wherever the header ends behind which it begins. -/
theorem visits_eq (hSize : data.size < 2 ^ 63) (h : Emf.Header) :
    visits h data = some (h.visits data) := by
  have hWalk : walk next resync (data.size + 1) _ h.recordCount = _ :=
    walk_eq hSize (fun _ hInside => next_eq hSize hInside)
      (Nat.min_le_right h.headerSize data.size) (by omega) h.recordCount
  rwa [walk_min] at hWalk

theorem decode_eq (hSize : data.size < 2 ^ 63) : decode data = some (File.decode data) := by
  simp only [decode, File.decode]
  cases Emf.Header.decode data with
  | error error => rfl
  | ok header =>
      dsimp only
      rw [visits_eq hSize]
      rfl

end Emf

namespace Plus

open Metafile.Plus

/-- The place of a bad record, or of one that is cut off, is computed for the report on it. -/
def next (base : Nat) (r : Reader) : Option Found := do
  let position := r.position
  if (← r.remaining) < recordHeaderSize then return .stop
  let (recordType, r) := r.u16
  let (flags, r) := r.u16
  let (size, r) := r.u32
  let (length, r) := r.u32
  let offset ← add base position
  if (← r.remaining) < length then return .stop
  if size < recordHeaderSize then return .bad (.sizeBelowHeader size)
  let (payload, r) ← r.bytes length
  let consumed := max size (← add recordHeaderSize length)
  return .record ⟨recordType, size, flags, offset, payload⟩
    (r.seek (addSaturating position consumed))

/-- The body of a comment that carries EMF+ records, with its place in the file. -/
def body? (comment : Record) : Option (Option Body) := do
  let payload := comment.payload
  if comment.opcode ≠ Metafile.Emf.Kind.comment.code then return none
  if payload.size < 8 ∨ payload.u32At 4 ≠ identifier then return none
  let stop := max 8 (min (addSaturating (payload.u32At 0) 4) payload.size)
  let bytes ← slice payload 8 stop
  return some ⟨← add (← add comment.offset 12) 4, bytes⟩

/-- The bodies among EMF records, each with the way along it. They are counted. -/
def bodies (limit : Nat) : (count : Nat) → List Record → Option (List (Body × List Visit))
  | _, [] => some []
  | count, r :: rs => do
    match ← body? r with
    | none => bodies limit count rs
    | some body =>
      let visits ← walk (next body.base) resync (body.bytes.size + 1) ⟨body.bytes, 0⟩ limit
      return (body, visits) :: (← bodies limit (← add count 1) rs)

def decode (limit : Nat) (data : Bytes) : Option (Report File) := do
  match Emf.Header.decode data with
  | .error error => return .fail error []
  | .ok header =>
    let outer ← Emf.visits header data
    let bodies ← bodies limit 0 (Visit.records outer)
    return .done ⟨header, bodies.flatMap fun (_, visits) => Visit.records visits⟩
      (Visit.warnings 0 Metafile.Emf.resync outer ++
        bodies.flatMap fun (body, visits) => Visit.warnings body.base resync visits)

theorem next_eq {body : Bytes} {base : Nat} (hSize : base + body.size < 2 ^ 63) {position : Nat}
    (hInside : position ≤ body.size) :
    next base ⟨body, position⟩ = some (.ofStep body (recordAt body base position)) := by
  have hBody : body.size < 2 ^ 63 := by omega
  simp only [next, recordAt, Reader.remaining_eq hInside, Option.bind_eq_bind, Option.bind_some]
  by_cases hRoom : body.size < position + recordHeaderSize
  · rw [if_pos (by omega), if_pos hRoom]
    rfl
  have hRoom' : position + 12 ≤ body.size := Nat.not_lt.1 hRoom
  rw [if_neg (by omega), if_neg hRoom, Reader.u16_eq hBody (by omega)]
  dsimp only
  rw [Reader.u16_eq hBody (by omega)]
  dsimp only
  rw [Reader.u32_eq hBody (by omega)]
  dsimp only
  rw [Reader.u32_eq hBody (by omega)]
  dsimp only
  rw [add_eq (by omega), Option.bind_some, Reader.remaining_eq (by omega), Option.bind_some]
  have hHeader : recordHeaderSize = 12 := rfl
  simp only [Nat.add_assoc, Nat.reduceAdd]
  by_cases hPast : body.size < position + (recordHeaderSize + body.u32At (position + 8))
  · rw [if_pos (by omega), if_pos hPast]
    rfl
  rw [if_neg (by omega), if_neg hPast]
  by_cases hShort : body.u32At (position + 4) < recordHeaderSize
  · rw [if_pos hShort, if_pos hShort]
    rfl
  rw [if_neg hShort, if_neg hShort, Reader.bytes_eq hBody (by omega), Option.bind_some,
    add_eq (by omega), Option.bind_some]
  rw [Reader.seek_addSaturating hBody]
  rfl

/-- The body of a comment lies inside its payload, and its place in the file is a word. -/
theorem body?_eq {comment : Record} (hPlace : comment.offset + 16 < 2 ^ 64)
    (hSize : comment.payload.size < 2 ^ 63) : body? comment = some (Body.ofRecord? comment) := by
  have hStop : max 8 (min (addSaturating (comment.payload.u32At 0) 4) comment.payload.size) =
      max 8 (min (comment.payload.u32At 0 + 4) comment.payload.size) := by
    rw [addSaturating]
    omega
  simp only [body?, Body.ofRecord?, Option.bind_eq_bind]
  by_cases hOther : comment.opcode ≠ Metafile.Emf.Kind.comment.code
  · rw [if_pos hOther, if_pos hOther]
    rfl
  rw [if_neg hOther, if_neg hOther]
  by_cases hPlain : comment.payload.size < 8 ∨ comment.payload.u32At 4 ≠ identifier
  · rw [if_pos hPlain, if_pos hPlain]
    rfl
  rw [if_neg hPlain, if_neg hPlain, hStop, slice_eq (by omega) (by omega), Option.bind_some,
    add_eq (by omega), Option.bind_some, add_eq (by omega)]
  rfl

/-- A comment that lies in a file below a bound puts its body there as well. -/
theorem base_add_size_lt {comment : Record} {body : Body}
    (hBody : Body.ofRecord? comment = some body)
    (hPlace : comment.offset + 8 + comment.payload.size < 2 ^ 63) :
    body.base + body.bytes.size < 2 ^ 63 := by
  obtain ⟨hCarries, rfl⟩ := Body.ofRecord?_eq_some hBody
  have hRoom := hCarries.size_ge
  dsimp only
  rw [Array.size_extract]
  omega

/-- Counting the bodies stops nowhere as long as there are no more of them than a word can count.
The induction is on the records with the count generalized. -/
theorem bodies_eq {limit count : Nat} {rs : List Record} (hCount : count + rs.length < 2 ^ 64)
    (hPlaces : ∀ r ∈ rs, r.offset + 8 + r.payload.size < 2 ^ 63) :
    bodies limit count rs =
      some ((rs.filterMap Body.ofRecord?).map fun body => (body, body.visits limit)) := by
  induction rs generalizing count with
  | nil => rfl
  | cons r rs ih =>
      obtain ⟨hPlace, hRest⟩ := List.forall_mem_cons.1 hPlaces
      rw [List.length_cons] at hCount
      rw [bodies, body?_eq (by omega) (by omega)]
      simp only [Option.bind_eq_bind, Option.bind_some]
      cases hBody : Body.ofRecord? r with
      | none =>
          rw [List.filterMap_cons_none hBody]
          exact ih (by omega) hRest
      | some body =>
          have hFits := base_add_size_lt hBody hPlace
          have hVisits : walk (next body.base) resync (body.bytes.size + 1) ⟨body.bytes, 0⟩ limit =
              some (body.visits limit) :=
            walk_eq (by omega) (fun _ hInside => next_eq hFits hInside) (Nat.zero_le _) (by omega)
              limit
          dsimp only
          rw [hVisits, Option.bind_some, add_eq (by omega), Option.bind_some, ih (by omega) hRest,
            List.filterMap_cons_some hBody]
          rfl

theorem decode_eq {data : Bytes} (hSize : data.size < 2 ^ 63) (limit : Nat) :
    decode limit data = some (File.decode limit data) := by
  simp only [decode, File.decode]
  cases Emf.Header.decode data with
  | error error => rfl
  | ok header =>
      obtain ⟨blocks, stop, hTiling, -⟩ := header.exists_tiling data
      have hCount : (Visit.records (header.visits data)).length ≤ data.size - header.headerSize :=
        length_records_walk_le ..
      have hBodies : bodies limit 0 (Visit.records (header.visits data)) =
          some (((Visit.records (header.visits data)).filterMap Body.ofRecord?).map
            fun body => (body, body.visits limit)) := by
        refine bodies_eq ?_ fun r hMem => ?_
        · rw [Nat.zero_add]
          exact Nat.lt_of_le_of_lt hCount (by omega)
        · have hInside := (hTiling.spread.1 r hMem).1.place_le
          omega
      dsimp only
      rw [Emf.visits_eq hSize]
      simp only [Option.bind_eq_bind, Option.bind_some, hBodies, List.flatMap_map]
      rfl

end Plus

/-- Decoding of a buffer as the format that it is taken for. -/
def Format.decode (format : Format) (limits : Limits) (data : Bytes) :
    Option (Report (Header × List Record)) :=
  match format with
  | .emf => (Emf.decode data).map fun report =>
    report.map fun file => (.emf file.header, Visit.records file.visits)
  | .emfPlus => (Plus.decode limits.plusRecordsPerComment data).map fun report =>
    report.map fun file => (.emf file.header, file.records)
  | _ => (Wmf.decode (format == .placeableWmf) limits.wmfRecords data).map fun report =>
    report.map fun file => (.wmf file.header, Visit.records file.visits)

/-- Every format is decoded without stopping, which puts the three cases together. -/
theorem Format.decode_eq {data : Bytes} (hSize : data.size < 2 ^ 63) (format : Format)
    (limits : Limits) : Format.decode format limits data = some (format.decode limits data) := by
  cases format with
  | emf => simp only [Format.decode, Metafile.Format.decode, Emf.decode_eq hSize, Option.map_some]
  | emfPlus =>
      simp only [Format.decode, Metafile.Format.decode, Plus.decode_eq hSize, Option.map_some]
  | placeableWmf | wmf | unknown =>
      simp only [Format.decode, Metafile.Format.decode, Wmf.decode_eq hSize, Option.map_some]

/-- Finds out the format of a buffer and reads it. The format is told from fields that are only
compared; where they stand is a sum that saturates, and a field behind the end is zero. -/
def decode (limits : Limits) (data : Bytes) : Option (Picture × List Warning) := do
  let format := Format.detect data
  let report ←
    if format = .unknown then some (.fail .unknownFormat []) else Format.decode format limits data
  match report.result with
  | .ok (header, records) => return (⟨format, some header, records, none⟩, report.warnings)
  | .error error =>
    return (⟨format, none, [], some error⟩, report.warnings ++ [.decodingFailed format error])

theorem decode_eq {data : Bytes} (hSize : data.size < 2 ^ 63) (limits : Limits) :
    decode limits data = some (Picture.decode limits data) := by
  simp only [decode, Picture.decode, Option.bind_eq_bind]
  by_cases hUnknown : Format.detect data = .unknown
  · rw [if_pos hUnknown, if_pos hUnknown]
    rfl
  · rw [if_neg hUnknown, if_neg hUnknown, Format.decode_eq hSize, Option.bind_some]
    cases ((Format.detect data).decode limits data).result <;> rfl

end Metafile.Machine
