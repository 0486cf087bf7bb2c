import Metafile.Record.Walk

/-! The way along a stream as a relation between its two ends. A walk goes as far
as its limit allows, and where it ends there is a reason for it. -/

namespace Metafile

variable {size : Nat} {step : (position : Nat) → Step position} {resync : Nat}

/-- What a step does, said for each of the three things that it can do: it finds a
record and goes on at a position, meets a fault, or stops. -/
def Step.Meets {position : Nat} (onFound : Record → Nat → Prop) (onBad : Fault → Prop)
    (onStop : Prop) : Step position → Prop
  | .found r next _ => onFound r next
  | .bad fault => onBad fault
  | .stop => onStop

namespace Step.Meets

variable {position : Nat} {onFound : Record → Nat → Prop} {onBad : Fault → Prop} {onStop : Prop}
  {s : Step position}

theorem of_found {r : Record} {next : Nat} {hAdvances : position < next}
    (hMeets : s.Meets onFound onBad onStop) (hStep : s = .found r next hAdvances) :
    onFound r next := by
  rwa [hStep] at hMeets

theorem of_bad {fault : Fault} (hMeets : s.Meets onFound onBad onStop) (hStep : s = .bad fault) :
    onBad fault := by
  rwa [hStep] at hMeets

theorem of_stop (hMeets : s.Meets onFound onBad onStop) (hStep : s = .stop) : onStop := by
  rwa [hStep] at hMeets

/-- A step that has no reason to do anything else finds a record. -/
theorem exists_found (hMeets : s.Meets onFound onBad onStop) (hBad : ∀ fault, ¬onBad fault)
    (hStop : ¬onStop) : ∃ r next hAdvances, s = .found r next hAdvances ∧ onFound r next := by
  cases hStep : s with
  | found r next hAdvances => exact ⟨r, next, hAdvances, rfl, hMeets.of_found hStep⟩
  | bad fault => exact absurd (hMeets.of_bad hStep) (hBad fault)
  | stop => exact absurd (hMeets.of_stop hStep) hStop

end Step.Meets

/-- The stops from one position of a stream to another, each found by the step at
the place where the one before it ended. -/
inductive Path (size : Nat) (step : (position : Nat) → Step position) (resync : Nat) :
    Nat → List Visit → Nat → Prop where
  | here (position : Nat) : Path size step resync position [] position
  | found {position next stop : Nat} {r : Record} {hAdvances : position < next}
      {visits : List Visit} (hBefore : position < size)
      (hStep : step position = .found r next hAdvances)
      (later : Path size step resync next visits stop) :
      Path size step resync position (.record r :: visits) stop
  | skipped {position stop : Nat} {fault : Fault} {visits : List Visit}
      (hBefore : position < size) (hStep : step position = .bad fault)
      (later : Path size step resync (position + max resync 1) visits stop) :
      Path size step resync position (.skipped position fault :: visits) stop

/-- Every stop is nearer to the end than the one before it. -/
theorem Path.length_le {start stop : Nat} {visits : List Visit}
    (hPath : Path size step resync start visits stop) : visits.length ≤ size - start := by
  induction hPath with
  | here position => exact Nat.zero_le _
  | found hBefore hStep later ih | skipped hBefore hStep later ih =>
      rw [List.length_cons]
      omega

/-- What every step finds is true of all records on a way. -/
theorem Path.forall_records {P : Record → Prop} {start stop : Nat} {visits : List Visit}
    (hFound : ∀ position r next hAdvances, step position = .found r next hAdvances → P r)
    (hPath : Path size step resync start visits stop) : ∀ r ∈ Visit.records visits, P r := by
  induction hPath with
  | here position => exact nofun
  | found hBefore hStep later ih => exact List.forall_mem_cons.2 ⟨hFound _ _ _ _ hStep, ih⟩
  | skipped hBefore hStep later ih => exact ih

/-- Why a walk with room for `room` more records goes no further. -/
def Ends (size : Nat) (step : (position : Nat) → Step position) (position room : Nat) : Prop :=
  room = 0 ∨ size ≤ position ∨ step position = .stop

/-- Where a walk ends before its limit, what a stop says is said, if the end of the
stream says it too. -/
theorem Ends.room_eq_zero_or {position room : Nat} {onFound : Record → Nat → Prop}
    {onBad : Fault → Prop} {onStop : Prop} (hEnds : Ends size step position room)
    (hMeets : (step position).Meets onFound onBad onStop) (hPast : size ≤ position → onStop) :
    room = 0 ∨ onStop := by
  rcases hEnds with hFull | hEnd | hStop
  · exact .inl hFull
  · exact .inr (hPast hEnd)
  · exact .inr (hMeets.of_stop hStop)

/-- A walk follows the stream without leaving anything out, keeps to its limit,
and ends only where it has to. -/
theorem exists_path_walk (size : Nat) (step : (position : Nat) → Step position)
    (resync position limit : Nat) :
    ∃ stop, Path size step resync position (walk size step resync position limit) stop ∧
      (Visit.records (walk size step resync position limit)).length ≤ limit ∧
      Ends size step stop
        (limit - (Visit.records (walk size step resync position limit)).length) := by
  induction position, limit using walk.induct size step resync with
  | case1 position limit hGoes r next hAdvances hStep ih =>
      obtain ⟨stop, hPath, hLength, hEnds⟩ := ih
      rw [walk_found hGoes.1 hGoes.2 hStep]
      refine ⟨stop, .found hGoes.1 hStep hPath, ?_, ?_⟩
      · rw [Visit.records_cons_record, List.length_cons]
        omega
      · rwa [Visit.records_cons_record, List.length_cons, Nat.add_comm, Nat.sub_add_eq]
  | case2 position limit hGoes fault hStep ih =>
      obtain ⟨stop, hPath, hLength, hEnds⟩ := ih
      rw [walk_bad hGoes.1 hGoes.2 hStep]
      exact ⟨stop, .skipped hGoes.1 hStep hPath, hLength, hEnds⟩
  | case3 position limit hGoes hStep =>
      rw [walk_stop hStep]
      exact ⟨position, .here position, Nat.zero_le _, .inr (.inr hStep)⟩
  | case4 position limit hStays =>
      rw [walk_of_not hStays]
      refine ⟨position, .here position, Nat.zero_le _, ?_⟩
      simp only [Ends, Visit.records_nil, List.length_nil]
      omega

/-- A walk does not depend on what is found before the place where it begins. -/
theorem walk_congr {other : (position : Nat) → Step position} {first : Nat}
    (hSame : ∀ position, first ≤ position → step position = other position)
    {position : Nat} (hBehind : first ≤ position) (limit : Nat) :
    walk size step resync position limit = walk size other resync position limit := by
  induction position, limit using walk.induct size step resync with
  | case1 position limit hGoes r next hAdvances hStep ih =>
      have hOther := (hSame position hBehind).symm.trans hStep
      rw [walk_found hGoes.1 hGoes.2 hStep, walk_found hGoes.1 hGoes.2 hOther, ih (by omega)]
  | case2 position limit hGoes fault hStep ih =>
      have hOther := (hSame position hBehind).symm.trans hStep
      rw [walk_bad hGoes.1 hGoes.2 hStep, walk_bad hGoes.1 hGoes.2 hOther, ih (by omega)]
  | case3 position limit hGoes hStep =>
      rw [walk_stop hStep, walk_stop ((hSame position hBehind).symm.trans hStep)]
  | case4 position limit hStays => rw [walk_of_not hStays, walk_of_not hStays]

/-- A walk finds at most one record for each byte of the stream. -/
theorem length_records_walk_le (position limit : Nat) :
    (Visit.records (walk size step resync position limit)).length ≤ size - position := by
  obtain ⟨stop, hPath, -⟩ := exists_path_walk size step resync position limit
  exact Nat.le_trans (List.length_filterMap_le ..) hPath.length_le

end Metafile
