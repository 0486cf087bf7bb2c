import Metafile.Proofs.Format.Outcome
import Metafile.Proofs.Machine.Word
import Metafile.Proofs.Plus.Containment
import Metafile.Proofs.Wmf.Headers

/-! Pictures that a machine can hold. No list or buffer in it is longer than half of the
machine's memory, and the edges of boxes are half words. A picture that was decoded from a
buffer of the machine is one of them. -/

namespace Metafile

open Machine (IsHalf)

/-- Signed fields of up to 32 bits are half words, whatever their bytes are. -/
theorem isHalf_signed {bits value : Nat} (hPositive : 0 < bits) (hBits : bits ≤ 32)
    (hValue : value < 2 ^ bits) : IsHalf (signed bits value) := by
  have hHalf : 2 ^ (bits - 1) ≤ 2 ^ 31 := Nat.pow_le_pow_right (by decide) (by omega)
  have hWhole : 2 ^ bits = 2 * 2 ^ (bits - 1) := by
    rw [← Nat.pow_succ', Nat.succ_eq_add_one, Nat.sub_add_cancel hPositive]
  unfold IsHalf signed
  rw [Nat.one_shiftLeft, Nat.one_shiftLeft]
  split <;> omega

namespace Bytes

variable (data : Bytes) (start : Nat)

theorem isHalf_i16At : IsHalf (data.i16At start) :=
  isHalf_signed (by decide) (by decide) (field_lt data start 2)

theorem isHalf_i32At : IsHalf (data.i32At start) :=
  isHalf_signed (by decide) (by decide) (field_lt data start 4)

end Bytes

/-- The edges are half words. -/
structure Rect.Fits (r : Rect) : Prop where
  left : IsHalf r.left
  top : IsHalf r.top
  right : IsHalf r.right
  bottom : IsHalf r.bottom

namespace Machine.Rect

def width (r : Rect) : Option Int := Signed.sub r.right r.left

def height (r : Rect) : Option Int := Signed.sub r.bottom r.top

/-- The height is not computed if the width tells that the box is empty. -/
def isEmpty (r : Rect) : Option Bool := do
  if (← width r) ≤ 0 then return true
  return (← height r) ≤ 0

variable {r : Rect}

theorem width_eq (hFits : r.Fits) : width r = some r.width := hFits.right.sub_eq hFits.left

theorem height_eq (hFits : r.Fits) : height r = some r.height := hFits.bottom.sub_eq hFits.top

/-- Edges that are half words have differences that are words, so that an empty box can be told
without stopping. -/
theorem isEmpty_eq (hFits : r.Fits) : isEmpty r = some r.isEmpty := by
  rw [isEmpty, width_eq hFits, height_eq hFits]
  by_cases hWidth : r.width ≤ 0 <;> simp [Metafile.Rect.isEmpty, hWidth]

end Machine.Rect

/-- The box that gives the surface its size fits, if there is one. -/
def Header.Fits : Header → Prop
  | .wmf header => ∀ placeable, header.placeable = some placeable → placeable.bounds.Fits
  | .emf header => header.bounds.Fits

structure Picture.Fits (p : Picture) : Prop where
  length_lt : p.records.length < 2 ^ 63
  payload_lt : ∀ r ∈ p.records, r.payload.size < 2 ^ 63
  header : ∀ header, p.header = some header → header.Fits

theorem Emf.Header.fits_rectAt (data : Bytes) (start : Nat) : (rectAt data start).Fits :=
  ⟨data.isHalf_i32At _, data.isHalf_i32At _, data.isHalf_i32At _, data.isHalf_i32At _⟩

/-- The bounds in a header are read from fields of 32 bits, so they fit without a check. -/
theorem Emf.Header.fits_of_decode {data : Bytes} {h : Emf.Header}
    (hDecode : Emf.Header.decode data = .ok h) : h.bounds.Fits := by
  obtain ⟨-, -, -, -, rfl⟩ := Emf.Header.decode_eq_ok_iff.1 hDecode
  exact fits_rectAt data 8

/-- Those of a placeable header are read from fields of 16 bits. -/
theorem Wmf.Header.fits_ofFile (placed : Bool) (data : Bytes) :
    (Header.wmf (ofFile placed data)).Fits := by
  intro placeable hPlaceable
  cases placed with
  | false => cases hPlaceable
  | true =>
      cases hPlaceable
      exact ⟨data.isHalf_i16At _, data.isHalf_i16At _, data.isHalf_i16At _, data.isHalf_i16At _⟩

/-- A stretch of a buffer is no longer than the buffer. -/
theorem Bytes.size_extract_le (data : Bytes) (start stop : Nat) :
    (data.extract start stop).size ≤ data.size := by
  rw [Array.size_extract]
  omega

/-- A payload is a part of the file, and so no larger than the file. -/
theorem Wmf.payload_le_of_mem {data : Bytes} {first limit : Nat} :
    ∀ r ∈ Visit.records (walk data.size (recordAt data) resync first limit),
      r.payload.size ≤ data.size := by
  obtain ⟨stop, hPath, -⟩ := exists_path_walk data.size (recordAt data) resync first limit
  refine hPath.forall_records fun position r next hAdvances hStep => ?_
  rw [((recordAt_meets data position).of_found hStep).2.1.payload_eq]
  exact data.size_extract_le ..

theorem Emf.payload_le_of_mem {data : Bytes} {h : Header} :
    ∀ r ∈ Visit.records (h.visits data), r.payload.size ≤ data.size := by
  obtain ⟨blocks, stop, hTiling, -⟩ := h.exists_tiling data
  intro r hMem
  have hPlace := (hTiling.spread.1 r hMem).1.place_le
  omega

namespace Plus

/-- Every record of a comment takes at least one byte of it, so there are no more of them than
bytes. -/
theorem length_contribution_le (limit : Nat) (comment : Record) :
    (contribution limit comment).length ≤ comment.payload.size := by
  unfold contribution
  cases hBody : Body.ofRecord? comment with
  | none => exact Nat.zero_le _
  | some body =>
      refine Nat.le_trans (length_records_walk_le ..) ?_
      obtain ⟨-, rfl⟩ := Body.ofRecord?_eq_some hBody
      exact Bytes.size_extract_le ..

/-- Comments that tile a stretch of a file have at most one record for each byte of it. -/
theorem length_contributions_le {data : Bytes} {start stop limit : Nat} {rs : List Record}
    {blocks : List Nat} (hTiling : Emf.Tiling data start rs blocks stop) :
    (rs.flatMap (contribution limit)).length ≤ data.size - start := by
  induction hTiling with
  | rest hGap => exact Nat.zero_le _
  | @record start stop r rs blocks more hGap hStands later ih =>
      have hFirst : (contribution limit r).length ≤ r.declaredSize := by
        refine Nat.le_trans (length_contribution_le limit r) ?_
        rw [hStands.payload_eq, Array.size_extract]
        omega
      have hStart := hGap.stop_eq
      have hEnd := hStands.end_le
      rw [List.flatMap_cons, List.length_append]
      omega

theorem payload_le_of_mem {data : Bytes} {limit : Nat} {h : Emf.Header} :
    ∀ r ∈ (Visit.records (h.visits data)).flatMap (contribution limit),
      r.payload.size ≤ data.size := by
  obtain ⟨blocks, stop, hTiling, -⟩ := h.exists_tiling data
  intro r hMem
  obtain ⟨comment, hComment, hr⟩ := List.mem_flatMap.1 hMem
  have hEnd :=
    ((contribution_spread (hTiling.spread.1 comment hComment).1 limit).2.1 r hr).2.2.end_le
  omega

end Plus

/-- What is read from a buffer is no larger than the buffer. -/
theorem Format.fits_report {limits : Limits} {data : Bytes} {header : Header} {rs : List Record}
    (hReport : (report limits data).result = .ok (header, rs)) :
    header.Fits ∧ rs.length ≤ data.size ∧ ∀ r ∈ rs, r.payload.size ≤ data.size := by
  unfold report at hReport
  cases hFormat : detect data with
  | unknown =>
      rw [hFormat] at hReport
      cases hReport
  | placeableWmf | wmf =>
      rw [hFormat] at hReport
      obtain ⟨file, hFile, hResult⟩ := Report.result_map_eq_ok_iff.1 hReport
      obtain ⟨-, -, rfl⟩ := Wmf.File.decode_eq_ok_iff.1 hFile
      cases hResult
      exact ⟨Wmf.Header.fits_ofFile _ data,
        Nat.le_trans (length_records_walk_le ..) (Nat.sub_le ..), Wmf.payload_le_of_mem⟩
  | emf =>
      rw [hFormat] at hReport
      obtain ⟨file, hFile, hResult⟩ := Report.result_map_eq_ok_iff.1 hReport
      obtain ⟨hHeader, hVisits, -⟩ := Emf.File.decode_of_ok hFile
      cases hResult
      rw [hVisits]
      exact ⟨Emf.Header.fits_of_decode hHeader,
        Nat.le_trans (length_records_walk_le ..) (Nat.sub_le ..), Emf.payload_le_of_mem⟩
  | emfPlus =>
      rw [hFormat] at hReport
      obtain ⟨file, hFile, hResult⟩ := Report.result_map_eq_ok_iff.1 hReport
      have hHeader := Plus.File.header_of_ok hFile
      have hRecords := Except.ok.inj ((Plus.File.result_of_header hHeader).symm.trans hFile)
      obtain ⟨blocks, stop, hTiling, -⟩ := file.header.exists_tiling data
      cases hResult
      rw [← hRecords]
      exact ⟨Emf.Header.fits_of_decode hHeader,
        Nat.le_trans (Plus.length_contributions_le hTiling) (Nat.sub_le ..),
        Plus.payload_le_of_mem⟩

/-- What is decoded from a buffer of the machine is a picture that the machine can hold. -/
theorem Picture.fits_decode {data : Bytes} (hSize : data.size < 2 ^ 63) (limits : Limits) :
    (Picture.decode limits data).1.Fits := by
  cases hReport : (Format.report limits data).result with
  | error error =>
      rw [decode_of_error hReport]
      refine ⟨Nat.two_pow_pos 63, nofun, ?_⟩
      rintro header ⟨⟩
  | ok file =>
      obtain ⟨header, rs⟩ := file
      obtain ⟨hHeader, hLength, hPayload⟩ := Format.fits_report hReport
      rw [decode_of_ok hReport]
      refine ⟨Nat.lt_of_le_of_lt hLength hSize,
        fun r hMem => Nat.lt_of_le_of_lt (hPayload r hMem) hSize, ?_⟩
      rintro _ ⟨⟩
      exact hHeader

end Metafile
