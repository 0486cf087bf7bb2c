import Metafile.Proofs.Performance

/-! What a performance counts. Each record counts as what its handler makes of it, and this is the
same in every player, whatever was performed on it before. -/

namespace Metafile

namespace Format

variable {format : Format} {ω : Type} [Surface ω]

/-- What becomes of a record in a format where object handles are below a limit. -/
def outcomeBelow (format : Format) (limit : Nat) (r : Record) : Outcome :=
  match format with
  | .emf => (Emf.reading limit r).outcome
  | .emfPlus => (Plus.reading r).outcome
  | _ => (Wmf.reading r).outcome

/-- Of the header the outcome of a record depends on the limit of the handles alone. -/
theorem outcome_eq (header : Header) :
    format.outcome header = format.outcomeBelow header.handleLimit := by
  funext r
  cases format <;> rfl

/-- Only EMF looks at the limit, and no format at anything but the number of a record, its flags
and its payload. -/
theorem outcomeBelow_congr {limit limit' : Nat} {r s : Record}
    (hLimit : format = .emf → limit = limit') (hOpcode : r.opcode = s.opcode)
    (hFlags : r.flags = s.flags) (hPayload : r.payload = s.payload) :
    format.outcomeBelow limit r = format.outcomeBelow limit' s := by
  cases format with
  | emf => simp only [outcomeBelow, Emf.reading, hOpcode, hPayload, hLimit rfl]
  | emfPlus => simp only [outcomeBelow, Plus.reading, hOpcode, hFlags, hPayload]
  | placeableWmf | wmf | unknown => simp only [outcomeBelow, Wmf.reading, hOpcode, hPayload]

/-- A handler ends in the same way in all players with as many handles, whatever they have drawn
and whatever they hold. -/
theorem outcome_handler {handle : Record → Play ω Bool} (hHandle : handle ∈ format.handler? ω)
    (r : Record) (player : Player ω) :
    (handle r).outcome player = format.outcomeBelow player.handleLimit r := by
  cases format with
  | placeableWmf | wmf =>
      obtain rfl := Option.some.inj hHandle
      exact Wmf.outcome_handle r player
  | emf =>
      obtain rfl := Option.some.inj hHandle
      exact Emf.outcome_handle r player
  | emfPlus =>
      obtain rfl := Option.some.inj hHandle
      exact Plus.outcome_handle r player
  | unknown => cases hHandle

/-- Every format that is known has a handler for its records. -/
theorem exists_handler (hFormat : format ≠ .unknown) : ∃ handle, handle ∈ format.handler? ω := by
  cases format with
  | unknown => exact absurd rfl hFormat
  | placeableWmf | wmf | emf | emfPlus => exact ⟨_, rfl⟩

end Format

/-- The records of a performance count one by one, each of them as what its handler makes of it in
any player with as many handles as the header says. -/
theorem Picture.summary_perform_eq_ofOutcomes {ω : Type} [Surface ω] {format : Format}
    (hFormat : format ≠ .unknown) (header : Header) (rs : List Record)
    (error : Option HeaderError) (canvas : ω) (o : Replay.Options) :
    (Picture.perform ⟨format, some header, rs, error⟩ canvas o).summary =
      .ofOutcomes (rs.map (format.outcomeBelow header.handleLimit)) := by
  rw [perform_eq, ← Format.outcome_eq]
  exact summary_replay_eq_ofOutcomes hFormat header rs error o

/-- The summary of a performance is the sum of those of its parts, in any order, on any surface
and under any options. All records are dispatched. Unhandled are those whose number the format has
no kind for, and failed are those whose handler ends in a fault, which it does in all players with
as many handles as the header says or in none. How a handler ends depends on the number of the
record, its flags and its payload, and with EMF on the number of handles, but not on what the
player holds after the records before it. -/
theorem Picture.summary_perform {format : Format} (hFormat : format ≠ .unknown) {ω : Type}
    [Surface ω] (header : Header) (error : Option HeaderError) (canvas : ω)
    (o : Replay.Options) :
    let summary := fun rs => (Picture.perform ⟨format, some header, rs, error⟩ canvas o).summary
    (∀ first second, summary (first ++ second) = summary first + summary second) ∧
    (∀ rs rs', rs.Perm rs' → ∀ (ω' : Type) [Surface ω'] (canvas' : ω') error' o', summary rs =
      (Picture.perform ⟨format, some header, rs', error'⟩ canvas' o').summary) ∧
    (∀ rs, (summary rs).dispatched = rs.length ∧
      ((summary rs).unhandled = rs.countP fun r => format.kindCode r.opcode ∉ format.codes) ∧
      ∃ handle ∈ format.handler? ω, ∀ player, player.handleLimit = header.handleLimit →
        ((summary rs).failed = rs.countP fun r => (handle r).outcome player matches .failed _)) ∧
    ∀ (ω' : Type) [Surface ω'], ∀ handle ∈ format.handler? ω, ∀ handle' ∈ format.handler? ω',
      ∀ player player' (r s : Record),
        (format = .emf → player.handleLimit = player'.handleLimit) →
        r.opcode = s.opcode → r.flags = s.flags → r.payload = s.payload →
          (handle r).outcome player = (handle' s).outcome player' := by
  intro summary
  have hSummary : ∀ rs, summary rs =
      .ofOutcomes (rs.map (format.outcomeBelow header.handleLimit)) :=
    fun rs => summary_perform_eq_ofOutcomes hFormat header rs error canvas o
  refine ⟨?_, ?_, ?_, ?_⟩
  · intro first second
    rw [hSummary, hSummary, hSummary, List.map_append, Summary.ofOutcomes_append]
  · intro rs rs' hPerm ω' _ canvas' error' o'
    rw [hSummary, summary_perform_eq_ofOutcomes hFormat, Summary.ofOutcomes_perm (hPerm.map _)]
  · intro rs
    rw [hSummary]
    simp only [Summary.ofOutcomes, List.countP_map]
    refine ⟨List.length_map .., ?_, ?_⟩
    · apply List.countP_congr
      intro r hMem
      rw [decide_eq_true_iff, ← Format.outcome_eq_unhandled_iff header r, Format.outcome_eq]
      cases hOutcome : format.outcomeBelow header.handleLimit r <;> simp [hOutcome]
    · obtain ⟨handle, hHandle⟩ := Format.exists_handler (ω := ω) hFormat
      refine ⟨handle, hHandle, ?_⟩
      intro player hLimit
      apply List.countP_congr
      intro r hMem
      rw [Format.outcome_handler hHandle, hLimit]
      rfl
  · intro ω' _ handle hHandle handle' hHandle' player player' r s hLimit hOpcode hFlags hPayload
    rw [Format.outcome_handler hHandle, Format.outcome_handler hHandle',
      Format.outcomeBelow_congr hLimit hOpcode hFlags hPayload]

/-- A line, half a line, and a record with an unknown function number, all of them twice
and in another order the second time. -/
theorem summary_perform_mixedRecords :
    let line : Record := ⟨0x213, 5, 0, 18, #[8, 0, 9, 0]⟩
    let half : Record := ⟨0x213, 4, 0, 28, #[1, 0]⟩
    let strange : Record := ⟨0x7777, 3, 0, 36, #[]⟩
    let summary := fun rs =>
      (Picture.perform ⟨.wmf, some (.wmf ⟨none, 1, 9, 0x300, 0, 0, 0, 0⟩), rs, none⟩
        Recording.empty .standard).summary
    Format.wmf ≠ .unknown ∧
      summary ([line, half, strange] ++ [strange, line, half]) =
        summary [line, half, strange] + summary [line, half, strange] ∧
      summary [line, half, strange] = ⟨3, 1, 1⟩ := by
  intro line half strange summary
  obtain ⟨hAppend, hPerm, -, -⟩ := @Picture.summary_perform .wmf (by decide) Recording _
    (.wmf ⟨none, 1, 9, 0x300, 0, 0, 0, 0⟩) none Recording.empty .standard
  have hTurned : summary [strange, line, half] = summary [line, half, strange] :=
    hPerm _ _ (by decide) Recording Recording.empty none .standard
  refine ⟨by decide, ?_, ?_⟩
  · exact (hAppend _ _).trans (congrArg (summary [line, half, strange] + ·) hTurned)
  · decide

end Metafile
