import Metafile.Proofs.Bytes.Part
import Metafile.Record.Walk

/-! Streams that are written record by record. A walk reads them back if each single
record is read back wherever its bytes are. -/

namespace Metafile

/-- How values are written as records: the bytes of each, and the record that they
are where they start at a position. -/
structure Encoding (α : Type) where
  bytes : α → Bytes
  record : Nat → α → Record

namespace Encoding

variable {α : Type} (e : Encoding α)

/-- Values written one behind the other. -/
def stream : List α → Bytes
  | [] => #[]
  | value :: values => e.bytes value ++ stream values

/-- The records of a stream that starts at a position. -/
def records : Nat → List α → List Record
  | _, [] => []
  | start, value :: values =>
    e.record start value :: records (start + (e.bytes value).size) values

/-- Wherever a value is in the data, the step finds its record and goes on behind it. -/
def ReadsBack (data : Bytes) (step : (position : Nat) → Step position) : Prop :=
  ∀ (value : α) (start : Nat), data.HasPart start (e.bytes value) →
    ∃ hAdvances, step start =
      .found (e.record start value) (start + (e.bytes value).size) hAdvances

variable {e} {data : Bytes} {step : (position : Nat) → Step position} {resync : Nat}

/-- A stream is read back before the walk looks at what is behind it. -/
theorem ReadsBack.walk_stream (hReads : e.ReadsBack data step) {start limit : Nat}
    {values : List α} (hPart : data.HasPart start (e.stream values))
    (hLimit : values.length ≤ limit) :
    walk data.size step resync start limit = (e.records start values).map .record ++
      walk data.size step resync (start + (e.stream values).size) (limit - values.length) := by
  induction values generalizing start limit with
  | nil => simp [records, stream]
  | cons value values ih =>
      rw [stream] at hPart
      obtain ⟨hAdvances, hStep⟩ := hReads value start hPart.left
      have hBefore : start < data.size := Nat.lt_of_lt_of_le hAdvances hPart.left.end_le
      rw [List.length_cons] at hLimit
      rw [walk_found hBefore (by omega) hStep, ih hPart.right (by omega), stream, records,
        List.length_cons, Array.size_append, Nat.add_assoc, Nat.sub_sub, Nat.add_comm 1]
      rfl

/-- A stream that goes on to the end of the data is all that a walk finds. -/
theorem ReadsBack.walk_eq (hReads : e.ReadsBack data step) {start limit : Nat}
    {values : List α} (hPart : data.HasPart start (e.stream values))
    (hEnd : start + (e.stream values).size = data.size) (hLimit : values.length ≤ limit) :
    walk data.size step resync start limit = (e.records start values).map .record := by
  rw [hReads.walk_stream hPart hLimit, walk_of_size_le step resync _ (Nat.le_of_eq hEnd.symm),
    List.append_nil]

end Encoding

end Metafile
