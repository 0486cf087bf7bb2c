import Metafile.Replay

/-! Replays taken apart at their records. What a record draws depends on the state
behind the records before it and on nothing else, so a replay can be cut between
any two records. -/

namespace Metafile

/-- The actions that records ask for, those of one record behind those of another. -/
def actionsOf {α : Type} (reading : Record → Reading α) (rs : List Record) : List α :=
  rs.flatMap fun r => (reading r).actions

namespace Plotter

variable {σ α : Type} (m : Plotter σ α) (reading : Record → Reading α)

/-- The state behind records. -/
def after (s : σ) (rs : List Record) : σ := m.run s (actionsOf reading rs)

/-- What records draw. -/
def drawn (s : σ) (rs : List Record) : List Call := m.calls s (actionsOf reading rs)

/-- Records may be cut into two parts anywhere: the second part finds the state that the first
one leaves. This and the next lemma are what all runs are taken apart with. -/
theorem after_append (s : σ) (first second : List Record) :
    m.after reading s (first ++ second) = m.after reading (m.after reading s first) second := by
  simp only [after, actionsOf, List.flatMap_append, run_append]

/-- And it draws from there. What is drawn first is not touched by what comes later. -/
theorem drawn_append (s : σ) (first second : List Record) :
    m.drawn reading s (first ++ second) =
      m.drawn reading s first ++ m.drawn reading (m.after reading s first) second := by
  simp only [drawn, after, actionsOf, List.flatMap_append, calls_append]

/-- The first of several records leaves the state in which the others are read and carried
out. -/
theorem after_cons (s : σ) (r : Record) (rs : List Record) :
    m.after reading s (r :: rs) = m.after reading (m.run s (reading r).actions) rs := by
  simp only [after, actionsOf, List.flatMap_cons, run_append]

/-- A record draws what its actions draw, and the others go on from there. -/
theorem drawn_cons (s : σ) (r : Record) (rs : List Record) :
    m.drawn reading s (r :: rs) =
      m.calls s (reading r).actions ++ m.drawn reading (m.run s (reading r).actions) rs := by
  simp only [drawn, actionsOf, List.flatMap_cons, calls_append]

@[simp]
theorem after_singleton (s : σ) (r : Record) :
    m.after reading s [r] = m.run s (reading r).actions := by
  rw [after, actionsOf, List.flatMap_singleton]

@[simp]
theorem drawn_singleton (s : σ) (r : Record) :
    m.drawn reading s [r] = m.calls s (reading r).actions := by
  rw [drawn, actionsOf, List.flatMap_singleton]

/-- The record fails, draws nothing and leaves the state as it is. -/
structure Refuses (r : Record) : Prop where
  failed : ∃ fault, reading r = ⟨[], .failed fault⟩
  drawn : ∀ s, m.drawn reading s [r] = []
  after : ∀ s, m.after reading s [r] = s

variable {m reading}

theorem refuses_of_reading {r : Record} {fault : Fault}
    (hReading : reading r = ⟨[], .failed fault⟩) : m.Refuses reading r where
  failed := ⟨fault, hReading⟩
  drawn s := by simp [hReading, calls]
  after s := by simp [hReading, run]

theorem Refuses.outcome_ne {r : Record} (hRefuses : m.Refuses reading r) :
    (reading r).outcome ≠ .done := by
  obtain ⟨fault, hReading⟩ := hRefuses.failed
  rw [hReading]
  exact nofun

/-- A record whose actions are made of one value is refused just if there is no such value. -/
theorem refuses_iff_of_reading {β : Type} {r : Record} {read : Except Fault β} {asked : β → List α}
    (hReading : reading r = .ofExcept (read.map asked)) :
    m.Refuses reading r ↔ ∀ value, read ≠ .ok value := by
  cases read with
  | error fault => exact ⟨fun _ => nofun, fun _ => refuses_of_reading hReading⟩
  | ok value =>
      refine ⟨fun hRefuses => absurd ?_ hRefuses.outcome_ne, fun hNone => absurd rfl (hNone value)⟩
      rw [hReading]
      rfl

variable (m reading)

/-- More records at the end draw more at the end, and change nothing of what has been drawn. -/
theorem drawn_isPrefix (s : σ) {rs whole : List Record} (hPrefix : rs <+: whole) :
    m.drawn reading s rs <+: m.drawn reading s whole := by
  obtain ⟨rest, rfl⟩ := hPrefix
  rw [drawn_append]
  exact List.prefix_append ..

end Plotter

namespace Replay

/-- The calls of a replay are those that set up the surface and those of the records behind. -/
theorem calls_ofRecords {σ α : Type} (setup : List Call) (m : Plotter σ α) (start : σ)
    (reading : Record → Reading α) (rs : List Record) :
    (ofRecords setup m start reading rs).calls = setup ++ m.drawn reading start rs := by
  simp only [ofRecords, Plotter.drawn, actionsOf, List.flatMap_map]

end Replay

/-- A picture with more records at the end draws what it drew without them, and then
more. -/
theorem Picture.calls_replay_isPrefix (format : Format) (header : Option Header)
    (error : Option HeaderError) (o : Replay.Options) {rs whole : List Record}
    (hPrefix : rs <+: whole) :
    (Picture.replay ⟨format, header, rs, error⟩ o).calls <+:
      (Picture.replay ⟨format, header, whole, error⟩ o).calls := by
  cases header with
  | none => exact List.prefix_rfl
  | some header =>
      cases format with
      | unknown => exact List.prefix_rfl
      | placeableWmf | wmf | emf | emfPlus =>
          simp only [Picture.replay, Replay.calls_ofRecords]
          exact (List.prefix_append_right_inj _).2 (Plotter.drawn_isPrefix _ _ _ hPrefix)

end Metafile
