import Metafile.Proofs.Gdi.Dialect
import Metafile.Proofs.Performance

/-! Records that leave no trace. A record that fails, that has no kind, or whose kind has no
effect on the drawing leaves the player as it was, so that it can be taken out of a picture, and
the picture is performed as before. -/

namespace Metafile

/-- The second list is left of the first when some of its records are taken out that do nothing:
they fail or have no kind in the player that the records before them leave, or they are idle. -/
inductive Omits {ω : Type} (handle : Record → Play ω Bool) (idle : Record → Prop) :
    Player ω → List Record → List Record → Prop where
  | nil (player : Player ω) : Omits handle idle player [] []
  | keep {player : Player ω} {rs rest : List Record} (r : Record)
      (later : Omits handle idle ((handle r).after player) rs rest) :
      Omits handle idle player (r :: rs) (r :: rest)
  | skip {player : Player ω} {rs rest : List Record} {r : Record}
      (hOmitted : (handle r).outcome player ≠ .done ∨ idle r)
      (later : Omits handle idle ((handle r).after player) rs rest) :
      Omits handle idle player (r :: rs) rest

/-- A kind that no handler acts on asks for nothing, not even for the bytes of its payload. -/
theorem Wmf.actions_of_idle {kind : Kind} (hIdle : kind.effect = .nothing) (p : Bytes) :
    actions kind p = .ok [] := by
  cases kind <;> first | rfl | cases hIdle

theorem Emf.actions_of_idle {kind : Kind} (hIdle : kind.effect = .nothing) (limit : Nat)
    (p : Bytes) : actions limit kind p = .ok [] := by
  cases kind <;> first | rfl | cases hIdle

namespace Format

variable {format : Format} {ω : Type} [Surface ω] {handle : Record → Play ω Bool}

/-- The record is of a kind that is known and has no effect on the drawing. -/
def hasIdleKind (format : Format) (r : Record) : Prop :=
  match format with
  | .emf => ∃ kind ∈ Emf.Kind.ofCode? r.opcode, kind.effect = .nothing
  | _ => ∃ kind ∈ Wmf.Kind.ofCode? (r.opcode % 0x10000), kind.effect = .nothing

/-- In each player there is a dialect whose reading of a record the handler follows. It finds
nothing to do in records of idle kinds. -/
theorem exists_dialect (hFormat : format.isGdi) (hHandle : handle ∈ format.handler? ω)
    (r : Record) (player : Player ω) : ∃ d : Gdi.Dialect,
      (handle r).run player = (Play.follow Gdi.Play.act (d.reading r)).run player ∧
      (format.hasIdleKind r → d.reading r = ⟨[], .done⟩) := by
  cases format with
  | placeableWmf | wmf =>
      obtain rfl := Option.some.inj hHandle
      refine ⟨Wmf.dialect, by rw [Wmf.handle_eq, Wmf.reading_dialect], ?_⟩
      rintro ⟨kind, hKind, hIdle⟩
      rw [Wmf.reading_dialect, Wmf.reading, hKind]
      exact congrArg Reading.ofExcept (Wmf.actions_of_idle hIdle r.payload)
  | emf =>
      obtain rfl := Option.some.inj hHandle
      refine ⟨Emf.dialect player.handleLimit, by rw [Emf.run_handle, Emf.reading_dialect], ?_⟩
      rintro ⟨kind, hKind, hIdle⟩
      rw [Emf.reading_dialect, Emf.reading, hKind]
      exact congrArg Reading.ofExcept (Emf.actions_of_idle hIdle player.handleLimit r.payload)
  | emfPlus | unknown => cases hFormat

/-- A handler that does not carry a record out leaves the player as it is: it has made no call,
and the session is the one before. -/
theorem after_handler_of_not_done (hFormat : format.isGdi) (hHandle : handle ∈ format.handler? ω)
    {r : Record} {player : Player ω} (hOutcome : (handle r).outcome player ≠ .done) :
    (handle r).after player = player := by
  obtain ⟨d, hRun, -⟩ := exists_dialect hFormat hHandle r player
  rw [Play.outcome_eq_of_run hRun] at hOutcome
  rw [Play.after_eq_of_run hRun]
  unfold Gdi.Play.act at *
  rw [Play.outcome_follow] at hOutcome
  rw [Play.after_follow, Gdi.Dialect.actions_of_not_done hOutcome]
  rfl

/-- A record of an idle kind is known, and nothing is done for it. -/
theorem run_handler_of_idle (hFormat : format.isGdi) (hHandle : handle ∈ format.handler? ω)
    {r : Record} (hIdle : format.hasIdleKind r) (player : Player ω) :
    (handle r).run player = .ok true player := by
  obtain ⟨d, hRun, hReading⟩ := exists_dialect hFormat hHandle r player
  rw [hRun, hReading hIdle]
  rfl

/-- Records that are taken out leave the same player behind. -/
theorem foldl_after_of_omits (hFormat : format.isGdi) (hHandle : handle ∈ format.handler? ω)
    {player : Player ω} {rs rest : List Record}
    (hRest : Omits handle format.hasIdleKind player rs rest) :
    rest.foldl (fun player r => (handle r).after player) player =
      rs.foldl (fun player r => (handle r).after player) player := by
  induction hRest with
  | nil player => rfl
  | keep r later ih => exact ih
  | @skip player rs rest r hOmitted later ih =>
      have hSame : (handle r).after player = player := by
        rcases hOmitted with hOutcome | hIdle
        · exact after_handler_of_not_done hFormat hHandle hOutcome
        · rw [Play.after, run_handler_of_idle hFormat hHandle hIdle]
      rw [List.foldl_cons, hSame]
      rwa [hSame] at ih

end Format

/-- The player behind a performance is the one that its records leave, handled one by one. -/
theorem Performance.player_foldl_advance {ω : Type} {handle : Record → Play ω Bool}
    (rs : List Record) (so : Performance ω) :
    (rs.foldl (advance handle) so).player =
      rs.foldl (fun player r => (handle r).after player) so.player := by
  induction rs generalizing so with
  | nil => rfl
  | cons r rest ih => rw [List.foldl_cons, ih, advance_eq, List.foldl_cons]

/-- A picture is drawn in the same way on every surface, for which a recording of the calls is one,
when records are taken out of it that fail, have no kind or are of an idle kind. A handler that
ends in a fault or finds no kind has made no call and has left everything that a player holds as
it was, whatever that is, and so has one for a record of an idle kind. -/
theorem Picture.canvas_perform_without (p : Picture) (hFormat : p.format.isGdi) {ω : Type}
    [Surface ω] :
    (∀ (canvas : ω) (o : Replay.Options) (rest : List Record),
      (∀ header ∈ p.header, ∀ handle ∈ p.format.handler? ω,
        Omits handle p.format.hasIdleKind
          (.start header (Surface.receiveAll canvas (o.setup header))) p.records rest) →
      (Picture.perform { p with records := rest } canvas o).canvas =
        (p.perform canvas o).canvas) ∧
    ∀ handle ∈ p.format.handler? ω, ∀ r player,
      (∀ fault left, (handle r).run player = .error fault left → left = player) ∧
      (∀ left, (handle r).run player = .ok false left → left = player) ∧
      (p.format.hasIdleKind r → (handle r).run player = .ok true player) := by
  refine ⟨?_, ?_⟩
  · intro canvas o rest hRest
    obtain ⟨format, header?, rs, error⟩ := p
    unfold perform
    cases header? with
    | none => rfl
    | some header =>
        cases hHandle : format.handler? ω with
        | none => rfl
        | some handle =>
            have hSame := Format.foldl_after_of_omits hFormat hHandle
              (hRest header rfl handle hHandle)
            dsimp only
            rw [Performance.player_foldl_advance, Performance.player_foldl_advance]
            exact congrArg Player.canvas hSame
  · intro handle hHandle r player
    refine ⟨?_, ?_, fun hIdle => Format.run_handler_of_idle hFormat hHandle hIdle player⟩
    · intro fault left hRun
      have hSame : (handle r).after player = player :=
        Format.after_handler_of_not_done hFormat hHandle (by simp [Play.outcome, hRun])
      rwa [Play.after, hRun] at hSame
    · intro left hRun
      have hSame : (handle r).after player = player :=
        Format.after_handler_of_not_done hFormat hHandle (by simp [Play.outcome, hRun])
      rwa [Play.after, hRun] at hSame

/-- A picture of five records: one with half a point, a line, one with an unknown
function number, an escape, and a pixel. -/
def noisyPicture : Picture where
  format := .wmf
  header := some (.wmf ⟨none, 1, 9, 0x300, 0, 0, 0, 0⟩)
  records := [⟨0x213, 4, 0, 18, #[1, 0]⟩, ⟨0x213, 5, 0, 26, #[8, 0, 9, 0]⟩,
    ⟨0x7777, 3, 0, 36, #[]⟩, ⟨0x626, 4, 0, 42, #[1, 0]⟩,
    ⟨0x41F, 7, 0, 50, #[1, 2, 3, 0, 4, 0, 5, 0]⟩]
  error := none

/-- The half point, the unknown number and the escape can be taken out, on a recording that has
begun with other calls as well. The line and the pixel stay. -/
theorem canvas_perform_without_noisyPicture :
    noisyPicture.format.isGdi ∧ ∀ (r : Recording) (o : Replay.Options),
      (Picture.perform { noisyPicture with
        records := [⟨0x213, 5, 0, 26, #[8, 0, 9, 0]⟩,
          ⟨0x41F, 7, 0, 50, #[1, 2, 3, 0, 4, 0, 5, 0]⟩] } r o).canvas =
        (noisyPicture.perform r o).canvas := by
  refine ⟨rfl, fun r o => ?_⟩
  refine (Picture.canvas_perform_without noisyPicture rfl).1 r o _ ?_
  rintro header ⟨⟩ handle ⟨⟩
  refine .skip (.inl ?_) (.keep _ (.skip (.inl ?_) (.skip (.inr ⟨.escape, rfl, rfl⟩)
    (.keep _ (.nil _)))))
  · rw [Wmf.outcome_handle]
    decide
  · rw [Wmf.outcome_handle]
    decide

end Metafile
