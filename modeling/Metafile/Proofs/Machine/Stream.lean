import Metafile.Proofs.Machine.Word
import Metafile.Proofs.Record.Path

/-! Reading a stream of records on the machine. Nothing keeps the position of a reader inside
its buffer but the way in which it is moved. -/

namespace Metafile.Machine

open Word

/-- A position in a buffer. -/
structure Reader where
  data : Bytes
  position : Nat

namespace Reader

/-- How many bytes are left, if the position is not behind the end. -/
def remaining (r : Reader) : Option Nat := sub r.data.size r.position

def seek (r : Reader) (target : Nat) : Reader := ⟨r.data, min target r.data.size⟩

def skip (r : Reader) (count : Nat) : Reader := r.seek (addSaturating r.position count)

def u16 (r : Reader) : Nat × Reader := (r.data.u16At r.position, r.skip 2)

def u32 (r : Reader) : Nat × Reader := (r.data.u32At r.position, r.skip 4)

/-- At most `count` bytes, fewer at the end of the buffer. -/
def bytes (r : Reader) (count : Nat) : Option (Bytes × Reader) := do
  let count := min count (← r.remaining)
  let taken ← slice r.data r.position (← add r.position count)
  return (taken, ⟨r.data, ← add r.position count⟩)

/-- The position is not behind the end. -/
def Inside (r : Reader) : Prop := r.position ≤ r.data.size

variable {data : Bytes} {position count : Nat}

/-- Moving to a place is cut off at the end, so the reader stays inside the buffer. -/
theorem inside_seek (r : Reader) (target : Nat) : (r.seek target).Inside := Nat.min_le_right ..

theorem remaining_eq (hInside : position ≤ data.size) :
    remaining ⟨data, position⟩ = some (data.size - position) := sub_eq hInside

/-- A target past the greatest word is past the end as well. -/
theorem seek_addSaturating (hSize : data.size < 2 ^ 63) {start : Nat} :
    seek ⟨data, position⟩ (addSaturating start count) = ⟨data, min (start + count) data.size⟩ := by
  simp only [seek, addSaturating]
  congr 1
  omega

/-- Skipping saturates twice: the sum at the greatest word, and the position at the end of the
buffer. Only the second can be seen. -/
theorem skip_eq (hSize : data.size < 2 ^ 63) :
    skip ⟨data, position⟩ count = ⟨data, min (position + count) data.size⟩ :=
  seek_addSaturating hSize

/-- Where there is room, a reader moves as far as it is told. -/
theorem skip_of_fits (hSize : data.size < 2 ^ 63) (hRoom : position + count ≤ data.size) :
    skip ⟨data, position⟩ count = ⟨data, position + count⟩ := by
  rw [skip_eq hSize, Nat.min_eq_left hRoom]

theorem u16_eq (hSize : data.size < 2 ^ 63) (hRoom : position + 2 ≤ data.size) :
    u16 ⟨data, position⟩ = (data.u16At position, ⟨data, position + 2⟩) := by
  rw [u16, skip_of_fits hSize hRoom]

theorem u32_eq (hSize : data.size < 2 ^ 63) (hRoom : position + 4 ≤ data.size) :
    u32 ⟨data, position⟩ = (data.u32At position, ⟨data, position + 4⟩) := by
  rw [u32, skip_of_fits hSize hRoom]

/-- As many bytes are taken as are there, and the reader stands behind them. -/
theorem bytes_eq (hSize : data.size < 2 ^ 63) (hInside : position ≤ data.size) :
    bytes ⟨data, position⟩ count = some (data.slice position count,
      ⟨data, min (position + count) data.size⟩) := by
  have hStop : position + min count (data.size - position) = min (position + count) data.size := by
    omega
  have hAdd : add position (min count (data.size - position)) =
      some (min (position + count) data.size) := by
    rw [add_eq (by omega), hStop]
  have hTaken : data.extract position (min (position + count) data.size) =
      data.slice position count := by
    rw [Bytes.slice, Array.extract_eq_extract_right]
    omega
  simp only [bytes, remaining_eq hInside, Option.bind_eq_bind, Option.bind_some, hAdd,
    slice_eq (show position ≤ min (position + count) data.size by omega) (Nat.min_le_right ..),
    hTaken]
  rfl

/-- A reader inside its buffer can tell how much is left, and stays inside when it takes bytes. -/
theorem inside_bytes {r : Reader} (hSize : r.data.size < 2 ^ 63) (hInside : r.Inside)
    (count : Nat) : r.remaining = some (r.data.size - r.position) ∧
      ∃ after, r.bytes count = some (r.data.slice r.position count, after) ∧ after.Inside :=
  ⟨remaining_eq hInside, _, bytes_eq hSize hInside, Nat.min_le_right ..⟩

end Reader

/-- What a format finds at the position of a reader. -/
inductive Found where
  | record (record : Record) (after : Reader)
  | bad (fault : Fault)
  | stop

/-- The way along a stream in at most `rounds` rounds. A way that takes more rounds has no
value. -/
def walk (next : Reader → Option Found) (resync : Nat) :
    (rounds : Nat) → Reader → (limit : Nat) → Option (List Visit)
  | 0, _, _ => none
  | rounds + 1, r, limit => do
    if (← r.remaining) = 0 ∨ limit = 0 then return []
    match ← next r with
    | .record record after =>
      return .record record :: (← walk next resync rounds after (limit - 1))
    | .bad fault =>
      let after := r.seek (addSaturating r.position (max resync 1))
      return .skipped r.position fault :: (← walk next resync rounds after limit)
    | .stop => return []

/-- The same step, taken by a reader of the buffer. -/
def Found.ofStep (data : Bytes) {position : Nat} : Step position → Found
  | .found r next _ => .record r ⟨data, min next data.size⟩
  | .bad fault => .bad fault
  | .stop => .stop

section

variable {data : Bytes} {step : (position : Nat) → Step position} {resync : Nat}

/-- It makes no difference by how much the end is passed. -/
theorem walk_min (position limit : Nat) :
    Metafile.walk data.size step resync (min position data.size) limit =
      Metafile.walk data.size step resync position limit := by
  rcases Nat.le_total position data.size with hInside | hPast
  · rw [Nat.min_eq_left hInside]
  · rw [Nat.min_eq_right hPast, walk_of_size_le step resync limit (Nat.le_refl _),
      walk_of_size_le step resync limit hPast]

/-- A format that finds at every position what the steps find goes the same way, and takes no
more rounds than there are bytes. -/
theorem walk_eq {next : Reader → Option Found} (hSize : data.size < 2 ^ 63)
    (hNext : ∀ position, position ≤ data.size →
      next ⟨data, position⟩ = some (.ofStep data (step position)))
    {rounds position : Nat} (hInside : position ≤ data.size)
    (hRounds : data.size - position < rounds) (limit : Nat) :
    walk next resync rounds ⟨data, position⟩ limit =
      some (Metafile.walk data.size step resync position limit) := by
  induction rounds generalizing position limit with
  | zero => omega
  | succ rounds ih =>
      have hRemaining : Reader.remaining ⟨data, position⟩ = some (data.size - position) :=
        Reader.remaining_eq hInside
      simp only [walk, hRemaining, Option.bind_eq_bind, Option.bind_some]
      by_cases hGoes : position < data.size ∧ 0 < limit
      · rw [if_neg (by omega), hNext position hInside]
        simp only [Option.bind_some]
        cases hStep : step position with
        | found record after hAdvances =>
            have hLater : data.size - min after data.size < rounds := by omega
            rw [walk_found hGoes.1 hGoes.2 hStep]
            simp only [Found.ofStep]
            rw [ih (Nat.min_le_right ..) hLater, walk_min]
            rfl
        | bad fault =>
            rw [walk_bad hGoes.1 hGoes.2 hStep]
            have hLater : data.size - min (position + max resync 1) data.size < rounds := by omega
            simp only [Found.ofStep, Reader.seek_addSaturating hSize]
            rw [ih (Nat.min_le_right ..) hLater, walk_min]
            rfl
        | stop =>
            rw [walk_stop hStep]
            rfl
      · rw [if_pos (by omega), Metafile.walk, if_neg hGoes]
        rfl

end

end Metafile.Machine
