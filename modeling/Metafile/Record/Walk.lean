import Metafile.Fault
import Metafile.Record

/-! The walk along a stream of records. A record that cannot be cut out of the
stream is skipped by a fixed number of bytes, so that one bad record does not
lose those behind it. -/

namespace Metafile

/-- What a format finds at a position of its stream. A record ends behind the
place where it starts. -/
inductive Step (position : Nat) where
  | found (record : Record) (next : Nat) (advances : position < next)
  | bad (fault : Fault)
  | stop

/-- One stop on the way along a stream. -/
inductive Visit where
  | record (record : Record)
  | skipped (position : Nat) (fault : Fault)
deriving Repr, DecidableEq

/-- The way along a stream of `size` bytes from a position on, for at most
`limit` records. Behind a bad record the walk goes on `resync` bytes after its
start, and at least one, so every step comes closer to the end. -/
def walk (size : Nat) (step : (position : Nat) → Step position) (resync : Nat)
    (position limit : Nat) : List Visit :=
  if position < size ∧ 0 < limit then
    match step position with
    | .found record next _ => .record record :: walk size step resync next (limit - 1)
    | .bad fault =>
      .skipped position fault :: walk size step resync (position + max resync 1) limit
    | .stop => []
  else []
termination_by size - position
decreasing_by all_goals omega

/-- A walk ends at the end of the stream, and where the limit is reached. -/
theorem walk_of_not {size position limit : Nat} {step : (position : Nat) → Step position}
    {resync : Nat} (hEnds : ¬(position < size ∧ 0 < limit)) :
    walk size step resync position limit = [] := by
  rw [walk, if_neg hEnds]

/-- Nothing is found behind the end of the stream. -/
theorem walk_of_size_le {size position : Nat} (step : (position : Nat) → Step position)
    (resync limit : Nat) (hEnd : size ≤ position) : walk size step resync position limit = [] :=
  walk_of_not (by omega)

section

variable {size position limit : Nat} {step : (position : Nat) → Step position} {resync : Nat}

/-- A record is put on the way, and the walk goes on behind it with one less to find. -/
theorem walk_found {next : Nat} {r : Record} {hAdvances : position < next}
    (hBefore : position < size) (hLimit : 0 < limit)
    (hStep : step position = .found r next hAdvances) :
    walk size step resync position limit =
      .record r :: walk size step resync next (limit - 1) := by
  rw [walk, if_pos ⟨hBefore, hLimit⟩, hStep]

/-- A bad place is skipped. It does not count against the limit, and the walk ends all the same,
as it gets closer to the end of the stream. -/
theorem walk_bad {fault : Fault} (hBefore : position < size) (hLimit : 0 < limit)
    (hStep : step position = .bad fault) :
    walk size step resync position limit =
      .skipped position fault :: walk size step resync (position + max resync 1) limit := by
  rw [walk, if_pos ⟨hBefore, hLimit⟩, hStep]

theorem walk_stop (hStep : step position = .stop) :
    walk size step resync position limit = [] := by
  rw [walk, hStep]
  simp

end

namespace Visit

/-- The records on the way. -/
def records (visits : List Visit) : List Record :=
  visits.filterMap fun
    | record r => some r
    | skipped _ _ => none

/-- A warning for each place that was skipped. Positions are those of the stream,
which may begin at `base` in the file. -/
def warnings (base resync : Nat) (visits : List Visit) : List Warning :=
  visits.filterMap fun
    | record _ => none
    | skipped position fault => some (.resynchronized (base + position) fault resync)

variable (base resync : Nat) (visits : List Visit)

@[simp]
theorem records_nil : records [] = [] := rfl

@[simp]
theorem records_cons_record (r : Record) : records (.record r :: visits) = r :: records visits :=
  rfl

@[simp]
theorem records_cons_skipped (position : Nat) (fault : Fault) :
    records (.skipped position fault :: visits) = records visits := rfl

@[simp]
theorem warnings_nil : warnings base resync [] = [] := rfl

@[simp]
theorem warnings_cons_record (r : Record) :
    warnings base resync (.record r :: visits) = warnings base resync visits := rfl

/-- Each skipped place gives one, with its position in the file. -/
@[simp]
theorem warnings_cons_skipped (position : Nat) (fault : Fault) :
    warnings base resync (.skipped position fault :: visits) =
      .resynchronized (base + position) fault resync :: warnings base resync visits := rfl

/-- A way without bad records is the list of the records on it. -/
@[simp]
theorem records_map_record (rs : List Record) : records (rs.map record) = rs := by
  induction rs with
  | nil => rfl
  | cons r rs ih => rw [List.map_cons, records_cons_record, ih]

@[simp]
theorem warnings_map_record (rs : List Record) : warnings base resync (rs.map record) = [] := by
  induction rs with
  | nil => rfl
  | cons r rs ih => rw [List.map_cons, warnings_cons_record, ih]

end Visit

end Metafile
