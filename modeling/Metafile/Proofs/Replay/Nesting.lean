import Mathlib.Data.List.TakeWhile
import Metafile.Proofs.Gdi.Dialect
import Metafile.Proofs.Gdi.Nesting

/-! Saved and restored states in a replay. The calls of a replay are nested, and at any
moment as many states are saved on the surface as in the session. A record that names no
saved state restores nothing. -/

namespace Metafile

namespace Plus.Session

variable (s : Session)

/-- Contexts from an index on are among those that are saved. -/
theorem length_savedFrom (index : Nat) : (s.savedFrom index).length ≤ s.saved.length :=
  (List.dropWhile_sublist _).length_le

/-- There are none if no context was saved with the index. Restoring to such an index does
nothing. -/
theorem savedFrom_eq_nil {s : Session} {index : Nat}
    (hNone : ∀ entry ∈ s.saved, entry.index ≠ index) : s.savedFrom index = [] := by
  apply List.dropWhile_eq_nil_iff.2
  intro entry hMem
  exact bne_iff_ne.2 (hNone entry hMem)

/-- Only saving and restoring move between the levels of the surface. All other actions draw on
one level, whatever the session is. -/
theorem flat_draw {action : Action} (hSave : ∀ index, action ≠ .save index)
    (hRestore : ∀ index, action ≠ .restore index) : (s.draw action).all Call.isFlat := by
  cases action with
  | save index => exact absurd rfl (hSave index)
  | restore index => exact absurd rfl (hRestore index)
  | strokeWith pen =>
      unfold draw penCalls
      dsimp only
      split <;> rfl
  | fillBoxes boxes | strokeBoxes boxes =>
      unfold draw
      simp [List.all_map, Call.isFlat, Call.isSave, Call.isRestore]
  | _ => rfl

/-- An action saves and restores as many states on the surface as in the session. -/
theorem nests_draw (action : Action) :
    Nests s.saved.length (s.draw action) (s.step action).saved.length := by
  cases action with
  | save index => exact .saveState _
  | restore index =>
      have hLength := s.length_savedFrom index
      unfold draw step
      dsimp only
      cases hFrom : s.savedFrom index with
      | nil => exact .of_flat rfl
      | cons entry older =>
          rw [hFrom, List.length_cons] at hLength
          have hNests := Nests.restoreStates (Nat.sub_le s.saved.length older.length)
          rwa [Nat.sub_sub_self (by omega)] at hNests
  | _ => exact .of_flat (s.flat_draw nofun nofun)

end Plus.Session

/-- A restore of an index that nothing is saved under. -/
theorem Plus.trace_of_unsaved {s : Session} {r : Record}
    (hKind : Kind.ofCode? (r.opcode % 0x10000) = some .restore)
    (hNone : ∀ entry ∈ s.saved, entry.index ≠ r.payload.u32At 0) :
    Session.plotter.after reading s [r] = s ∧ Session.plotter.drawn reading s [r] = [] := by
  have hFrom := Session.savedFrom_eq_nil hNone
  rw [Plotter.after_cons, Plotter.drawn_cons, reading, hKind]
  dsimp only [actions]
  cases r.payload.need 4 with
  | error fault => exact ⟨rfl, rfl⟩
  | ok _ =>
      have hStep : s.step (.restore (r.payload.u32At 0)) = s := by
        simp only [Session.step, hFrom]
      have hDraw : s.draw (.restore (r.payload.u32At 0)) = [] := by
        simp only [Session.draw, hFrom]
      exact ⟨hStep, congrArg (· ++ [] ++ []) hDraw⟩

/-- A restore of level zero, of a level further back than there are contexts, or of one
beyond the newest. -/
theorem Gdi.Dialect.trace_of_restores {d : Dialect} {s : Session} {r : Record} {level : Int}
    (hRestores : d.Restores r level)
    (hLevel : level = 0 ∨ s.saved.length + level < 0 ∨ s.saved.length < level) :
    d.after s [r] = s ∧ d.drawn s [r] = [] := by
  have hDepth := Session.depthAfterRestore?_eq_none hLevel
  rw [after, drawn, Plotter.after_cons, Plotter.drawn_cons, actions_of_restores hRestores]
  have hStep : s.step (.restoreContext level) = s := by
    simp only [Session.step, Session.restore, hDepth]
  have hDraw : s.draw (.restoreContext level) = [] := by
    simp only [Session.draw, hDepth]
  exact ⟨hStep, congrArg (· ++ [] ++ []) hDraw⟩

/-- If every action moves the surface as it moves the depth of its state, every replay does. This
is stated for any plotter, so that both kinds of sessions are cases of it. -/
theorem Replay.nests_ofRecords {σ α : Type} {setup : List Call} (hSetup : setup.all Call.isFlat)
    (m : Plotter σ α) (depth : σ → Nat)
    (hStep : ∀ s action, Nests (depth s) (m.draw s action) (depth (m.step s action)))
    (start : σ) (reading : Record → Reading α) (rs : List Record) :
    Nests (depth start) (ofRecords setup m start reading rs).calls
      (depth (m.after reading start rs)) := by
  rw [calls_ofRecords]
  exact (Nests.of_flat hSetup).append (m.nests_calls hStep start _)

namespace Picture

/-- How many states are saved in the session behind the records of a picture. -/
def depth (p : Picture) : Nat :=
  match p.header, p.format with
  | none, _ | some _, .unknown => 0
  | some _, .emfPlus => (Plus.Session.plotter.after Plus.reading .initial p.records).saved.length
  | some header, format =>
    ((format.dialect header).after (.initial header.initialMap) p.records).saved.length

/-- So the calls of a replay are nested, and the surface is left as deep as the last session
is. -/
theorem nests_calls_replay (p : Picture) (o : Replay.Options) :
    Nests 0 (p.replay o).calls p.depth := by
  obtain ⟨format, header?, rs, error⟩ := p
  cases header? with
  | none => exact .of_flat rfl
  | some header =>
      have hSetup : (o.setup header).all Call.isFlat := by
        unfold Replay.Options.setup
        cases o.background <;> rfl
      cases format with
      | unknown => exact .of_flat rfl
      | emfPlus =>
          exact Replay.nests_ofRecords hSetup Plus.Session.plotter (fun s => s.saved.length)
            Plus.Session.nests_draw .initial Plus.reading rs
      | placeableWmf | wmf | emf =>
          rw [calls_replay_of_isGdi rfl]
          exact (Nests.of_flat hSetup).append
            (Gdi.Session.plotter.nests_calls Gdi.Session.nests_draw (.initial header.initialMap) _)

/-- The surface is never asked for more states than it was told to save, and behind each
record it has as many of them as the session. Levels and indices that name no saved state
restore nothing. -/
theorem nested_replay (p : Picture) (o : Replay.Options) :
    (∀ part, part <+: (p.replay o).calls →
      part.countP Call.isRestore ≤ part.countP Call.isSave) ∧
    (∀ rs, rs <+: p.records →
      let calls := (Picture.replay { p with records := rs } o).calls
      calls <+: (p.replay o).calls ∧
        calls.countP Call.isSave =
          calls.countP Call.isRestore + Picture.depth { p with records := rs }) ∧
    (∀ header ∈ p.header, p.format.isGdi → ∀ (s : Gdi.Session) (r : Record) (level : Int),
      (p.format.dialect header).Restores r level →
      level = 0 ∨ s.saved.length + level < 0 ∨ s.saved.length < level →
      (p.format.dialect header).after s [r] = s ∧ (p.format.dialect header).drawn s [r] = []) ∧
    ∀ (s : Plus.Session) (r : Record),
      Plus.Kind.ofCode? (r.opcode % 0x10000) = some .restore →
      (∀ entry ∈ s.saved, entry.index ≠ r.payload.u32At 0) →
      Plus.Session.plotter.after Plus.reading s [r] = s ∧
        Plus.Session.plotter.drawn Plus.reading s [r] = [] := by
  refine ⟨?_, ?_, ?_, ?_⟩
  · intro part hPart
    have hNests := (p.nests_calls_replay o).restores_le part hPart
    rwa [Nat.zero_add] at hNests
  · intro rs hPrefix calls
    have hNests := (Picture.nests_calls_replay { p with records := rs } o).balance
    refine ⟨calls_replay_isPrefix p.format p.header p.error o hPrefix, ?_⟩
    rw [Nat.zero_add] at hNests
    rw [hNests, Nat.add_comm]
  · intro header hHeader hFormat s r level hRestores hLevel
    exact Gdi.Dialect.trace_of_restores hRestores hLevel
  · intro s r hKind hNone
    exact Plus.trace_of_unsaved hKind hNone

end Picture

/-- Two contexts are saved, and a record names a third one. -/
theorem nested_replay_thirdOfTwo :
    let header : Header := .wmf ⟨none, 1, 9, 0x300, 0, 0, 0, 0⟩
    let save : Record := ⟨0x1E, 3, 0, 18, #[]⟩
    let restore : Record := ⟨0x127, 4, 0, 30, #[3, 0]⟩
    let p : Picture := ⟨.wmf, some header, [save, save, restore], none⟩
    let d := Format.wmf.dialect header
    let s := d.after (.initial header.initialMap) [save, save]
    let calls := (p.replay .standard).calls
    calls.countP Call.isRestore ≤ calls.countP Call.isSave ∧
      calls.countP Call.isSave = calls.countP Call.isRestore + p.depth ∧ p.depth = 2 ∧
      d.Restores restore 3 ∧ s.saved.length < (3 : Int) ∧
      d.after s [restore] = s ∧ d.drawn s [restore] = [] := by
  intro header save restore p d s calls
  have hRestores : d.Restores restore 3 := ⟨rfl, by decide, rfl⟩
  have hLevel : s.saved.length < (3 : Int) := by decide
  obtain ⟨hPart, hRecords, hDialect, -⟩ := Picture.nested_replay p .standard
  exact ⟨hPart calls List.prefix_rfl, (hRecords p.records List.prefix_rfl).2, rfl, hRestores,
    hLevel, hDialect header rfl rfl s restore 3 hRestores (.inr (.inr hLevel))⟩

end Metafile
