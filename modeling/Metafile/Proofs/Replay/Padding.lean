import Metafile.Proofs.Gdi.Settled
import Metafile.Proofs.Plus.Settled
import Metafile.Proofs.Replay.Summary

/-! Bytes behind the end of a record. A record that is carried out draws nothing that
depends on bytes which its payload does not have, so whatever is put behind the payload
the whole picture is drawn as before. -/

namespace Metafile

/-- The record with more bytes behind its payload. -/
def Record.pad (r : Record) (extra : Bytes) : Record := { r with payload := r.payload ++ extra }

namespace Wmf

/-- Only the hatch of a brush may come out different. -/
theorem reading_pad {r : Record} (hDone : (reading r).outcome = .done)
    (hFont : Kind.ofCode? (r.opcode % 0x10000) ≠ some .createFontIndirect) (extra : Bytes) :
    (reading (r.pad extra)).outcome = .done ∧
      (reading (r.pad extra)).actions.map Gdi.Action.unhatched =
        (reading r).actions.map Gdi.Action.unhatched := by
  unfold reading at hDone ⊢
  simp only [Record.pad]
  cases hKind : Kind.ofCode? (r.opcode % 0x10000) with
  | none =>
      rw [hKind] at hDone
      cases hDone
  | some kind =>
      rw [hKind] at hDone hFont
      cases hRead : actions kind r.payload with
      | error fault =>
          simp only [hRead] at hDone
          cases hDone
      | ok asked =>
          have hOther : kind ≠ .createFontIndirect := fun hSame => hFont (congrArg some hSame)
          obtain ⟨more, hMore, hSame⟩ := exists_actions_append hOther hRead extra
          simp only [hMore, hRead]
          exact ⟨rfl, hSame⟩

end Wmf

/-- The reading of an EMF record does not change either. -/
theorem Emf.reading_pad {limit : Nat} {r : Record} (hDone : (reading limit r).outcome = .done)
    (extra : Bytes) : reading limit (r.pad extra) = reading limit r := by
  unfold reading at hDone ⊢
  simp only [Record.pad]
  cases hKind : Kind.ofCode? r.opcode with
  | none => rfl
  | some kind =>
      rw [hKind] at hDone
      exact SettledReading.ofExcept (settled_actions limit kind) r.payload extra hDone

theorem Plus.reading_pad {r : Record} (hDone : (reading r).outcome = .done) (extra : Bytes) :
    reading (r.pad extra) = reading r := by
  unfold reading at hDone ⊢
  simp only [Record.pad]
  cases hKind : Kind.ofCode? (r.opcode % 0x10000) with
  | none => rfl
  | some kind =>
      rw [hKind] at hDone
      exact settled_actions kind ⟨r.flags⟩ r.payload extra hDone

namespace Replay

variable {σ α : Type} (setup : List Call) (m : Plotter σ α) (start : σ)
  {reading : Record → Reading α} {r : Record} {extra : Bytes} (before behind : List Record)

/-- A replay is the same with a record in place of another one if they have the same
outcome and the same is drawn. -/
theorem ofRecords_pad (hOutcome : (reading (r.pad extra)).outcome = (reading r).outcome)
    (hDrawn : m.drawn reading start (before ++ r.pad extra :: behind) =
      m.drawn reading start (before ++ r :: behind)) :
    ofRecords setup m start reading (before ++ r.pad extra :: behind) =
      ofRecords setup m start reading (before ++ r :: behind) := by
  simp only [ofRecords, mk.injEq]
  refine ⟨?_, ?_, ?_⟩
  · exact (calls_ofRecords ..).trans
      ((congrArg (setup ++ ·) hDrawn).trans (calls_ofRecords ..).symm)
  · simp only [List.map_append, List.map_cons, hOutcome]
  · simp only [List.map_append, List.map_cons, List.filterMap_append, List.filterMap_cons, hOutcome]
    rfl

/-- Then nothing in the whole replay changes, as a record is only known by its reading. -/
theorem ofRecords_pad_of_eq (hSame : reading (r.pad extra) = reading r) :
    ofRecords setup m start reading (before ++ r.pad extra :: behind) =
      ofRecords setup m start reading (before ++ r :: behind) := by
  refine ofRecords_pad setup m start before behind (congrArg Reading.outcome hSame) ?_
  simp only [Plotter.drawn, actionsOf, List.flatMap_append, List.flatMap_cons, hSame]

end Replay

/-- A record that is carried out can be given any bytes behind its payload, and the replay
stays the same. Only WMF fonts are left out, whose faces may be cut off. -/
theorem Picture.replay_pad (format : Format) (header? : Option Header)
    (error : Option HeaderError) (o : Replay.Options) (before behind : List Record) {r : Record}
    (hDone : ∀ header ∈ header?, format.outcome header r = .done)
    (hFont : format = .wmf ∨ format = .placeableWmf →
      Wmf.Kind.ofCode? (r.opcode % 0x10000) ≠ some .createFontIndirect)
    (extra : Bytes) :
    Picture.replay ⟨format, header?, before ++ r.pad extra :: behind, error⟩ o =
      Picture.replay ⟨format, header?, before ++ r :: behind, error⟩ o := by
  cases header? with
  | none => rfl
  | some header =>
      have hOutcome := hDone header rfl
      cases format with
      | unknown => rfl
      | emf => exact Replay.ofRecords_pad_of_eq _ _ _ _ _ (Emf.reading_pad hOutcome extra)
      | emfPlus => exact Replay.ofRecords_pad_of_eq _ _ _ _ _ (Plus.reading_pad hOutcome extra)
      | placeableWmf | wmf =>
          obtain ⟨hStill, hSame⟩ := Wmf.reading_pad hOutcome (hFont (by simp)) extra
          refine Replay.ofRecords_pad _ _ _ _ _ (hStill.trans hOutcome.symm) ?_
          apply Gdi.Session.calls_congr_unhatched
          simp only [actionsOf, List.flatMap_append, List.flatMap_cons, List.map_append, hSame]

/-- A brush whose hatch is cut off, and a hatch put behind it. The brush is selected and a
rectangle filled with it. -/
theorem replay_pad_cutBrush :
    let header : Header := .wmf ⟨none, 1, 9, 0x300, 0, 0, 0, 0⟩
    let brush : Record := ⟨0x2FC, 6, 0, 18, #[0, 0, 1, 2, 3, 0]⟩
    let behind : List Record := [⟨0x12D, 4, 0, 30, #[0, 0]⟩,
      ⟨0x41B, 7, 0, 38, #[9, 0, 8, 0, 1, 0, 2, 0]⟩]
    Format.wmf.outcome header brush = .done ∧
      Wmf.Kind.ofCode? (brush.opcode % 0x10000) ≠ some .createFontIndirect ∧
      Picture.replay ⟨.wmf, some header, [] ++ brush.pad #[5, 0, 7] :: behind, none⟩ .standard =
        Picture.replay ⟨.wmf, some header, [] ++ brush :: behind, none⟩ .standard := by
  intro header brush behind
  have hDone : Format.wmf.outcome header brush = .done := by decide
  have hFont : Wmf.Kind.ofCode? (brush.opcode % 0x10000) ≠ some .createFontIndirect := by decide
  refine ⟨hDone, hFont, Picture.replay_pad .wmf (some header) none .standard [] behind ?_ ?_ _⟩
  · rintro _ ⟨⟩
    exact hDone
  · intro _
    exact hFont

end Metafile
