import Metafile.Proofs.Gdi.Dialect
import Metafile.Proofs.Gdi.Frame

/-! Brackets: records between one that saves the context and one that restores it. What
they change is put back, so the records behind a bracket draw what they would draw
without it. -/

namespace Metafile

namespace Gdi

namespace Session

/-- The context of a session is put aside in a later one, where objects and path are
still the same. Restoring that context leads back to the session. -/
structure Sheltered (outer s : Session) : Prop where
  objects_eq : s.objects = outer.objects
  path_eq : s.path = outer.path
  saved : ⟨outer.dc, outer.map⟩ :: outer.saved <:+ s.saved

/-- Right behind the record that saves it, the outer context is put aside and all the rest is as
it was. -/
theorem sheltered_saveContext (s : Session) : Sheltered s (s.step .saveContext) :=
  ⟨rfl, rfl, List.suffix_rfl⟩

namespace Sheltered

variable {outer s : Session}

/-- As long as the outer context is put aside, there is one context more than outside. -/
theorem depth_le (hSheltered : Sheltered outer s) : outer.saved.length + 1 ≤ s.saved.length :=
  hSheltered.saved.length_le

/-- Inside the bracket a path records just if it did outside, since nothing there may touch it. -/
theorem isRecording_eq (hSheltered : Sheltered outer s) : s.isRecording = outer.isRecording := by
  rw [isRecording, hSheltered.path_eq]
  rfl

/-- Only the objects and the path cannot be restored, and the context has to stay put
aside. -/
theorem step (hSheltered : Sheltered outer s) (hRecording : outer.isRecording = false)
    {action : Action} (hObjects : action.effect ≠ .objects) (hPath : action.effect ≠ .path)
    (hDepth : outer.saved.length + 1 ≤ (s.step action).saved.length) :
    Sheltered outer (s.step action) where
  objects_eq := (objects_step hObjects).trans hSheltered.objects_eq
  path_eq :=
    (path_step (hSheltered.isRecording_eq.trans hRecording) hPath).trans hSheltered.path_eq
  saved := suffix_saved_step hSheltered.saved hDepth

/-- Actions that leave objects, paths and the saved contexts alone keep the outer context
sheltered, however many they are. -/
theorem run (hSheltered : Sheltered outer s) (hRecording : outer.isRecording = false)
    {actions : List Action}
    (hActions : ∀ action ∈ actions,
      action.effect ≠ .objects ∧ action.effect ≠ .path ∧ action.effect ≠ .context) :
    Sheltered outer (plotter.run s actions) := by
  refine plotter.run_preserves (Sheltered outer) ?_ hActions hSheltered
  rintro t action hBefore ⟨hObjects, hPath, hContext⟩
  have hDepth : outer.saved.length + 1 ≤ (t.step action).saved.length := by
    rw [saved_step hContext]
    exact hBefore.depth_le
  exact hBefore.step hRecording hObjects hPath hDepth

/-- The level of the context that was put aside first counts from the oldest one or back
from the newest one. -/
theorem restore (hSheltered : Sheltered outer s) {level : Int}
    (hLevel : level = outer.saved.length + 1 ∨
      ∃ k : Nat, level = -k ∧ outer.saved.length + k = s.saved.length) :
    s.restore level = outer := by
  obtain ⟨newer, hSaved⟩ := hSheltered.saved
  rw [restore_eq hSaved.symm (depthAfterRestore?_eq hSheltered.depth_le hLevel),
    hSheltered.objects_eq, hSheltered.path_eq]

end Sheltered

end Session

namespace Dialect

variable {d : Dialect} {outer s : Session}

/-- A record shelters a context as its actions do. It asks for several actions only if
none of them changes how many contexts are put aside. -/
theorem sheltered_after_record (hSheltered : outer.Sheltered s)
    (hRecording : outer.isRecording = false) {r : Record} (hObjects : d.effectOf r ≠ .objects)
    (hPath : d.effectOf r ≠ .path)
    (hDepth : outer.saved.length + 1 ≤ (d.after s [r]).saved.length) :
    outer.Sheltered (d.after s [r]) := by
  rw [after_cons] at hDepth ⊢
  by_cases hContext : d.effectOf r = .context
  · rcases actions_of_context hContext with hNone | ⟨action, hOne⟩
    · rw [hNone]
      exact hSheltered
    · have hEffect : action.effect = .context := by
        rw [← hContext]
        apply effect_eq
        rw [hOne]
        exact List.mem_singleton_self action
      rw [hOne] at hDepth ⊢
      refine hSheltered.step hRecording ?_ ?_ hDepth
      · simp [hEffect]
      · simp [hEffect]
  · refine hSheltered.run hRecording ?_
    intro action hMem
    rw [effect_eq hMem]
    exact ⟨hObjects, hPath, hContext⟩

/-- Records do so as well if none of them goes below the depth of the bracket on the way. The
depth is asked for behind every part of them, as a record inside may restore too far and another
save again. -/
theorem sheltered_after (hSheltered : outer.Sheltered s) (hRecording : outer.isRecording = false)
    {rs : List Record} (hEffect : ∀ r ∈ rs, d.effectOf r ≠ .objects ∧ d.effectOf r ≠ .path)
    (hDepth : ∀ part, part <+: rs → outer.saved.length + 1 ≤ (d.after s part).saved.length) :
    outer.Sheltered (d.after s rs) := by
  induction rs generalizing s with
  | nil => exact hSheltered
  | cons r rest ih =>
      obtain ⟨⟨hObjects, hPath⟩, hRest⟩ := List.forall_mem_cons.1 hEffect
      have hRecord : outer.Sheltered (d.after s [r]) :=
        sheltered_after_record hSheltered hRecording hObjects hPath (hDepth [r] ⟨rest, rfl⟩)
      rw [show r :: rest = [r] ++ rest from rfl, after_append]
      apply ih hRecord hRest
      intro part hPart
      rw [← after_append]
      exact hDepth ([r] ++ part) ((List.prefix_append_right_inj [r]).2 hPart)

/-- Records in a session where no path is recording. The first one saves the context and
the last one restores it, by the level it has. Between them the context stays put aside,
objects are neither created nor deleted, and there are no path records. -/
structure Bracket (d : Dialect) (outer : Session) (save : Record) (inside : List Record)
    (restore : Record) (level : Int) : Prop where
  saves : d.Saves save
  restores : d.Restores restore level
  not_recording : outer.isRecording = false
  depth_le : ∀ part, part <+: inside →
    outer.saved.length + 1 ≤ (d.after outer (save :: part)).saved.length
  effect_ne : ∀ r ∈ inside, d.effectOf r ≠ .objects ∧ d.effectOf r ≠ .path
  level_eq : level = outer.saved.length + 1 ∨
    ∃ k : Nat, level = -k ∧
      outer.saved.length + k = (d.after outer (save :: inside)).saved.length

/-- A bracket leaves the session exactly as it was outside, with the objects, the path and the
saved contexts, whatever the records inside have drawn. -/
theorem Bracket.after_eq {save restore : Record} {inside : List Record} {level : Int}
    (hBracket : d.Bracket outer save inside restore level) :
    d.after outer (save :: (inside ++ [restore])) = outer := by
  have hSave : ∀ rs, d.after outer (save :: rs) = d.after (outer.step .saveContext) rs := by
    intro rs
    rw [after_cons, actions_of_saves hBracket.saves]
    rfl
  have hInside : outer.Sheltered (d.after (outer.step .saveContext) inside) := by
    apply sheltered_after outer.sheltered_saveContext hBracket.not_recording hBracket.effect_ne
    intro part hPart
    rw [← hSave]
    exact hBracket.depth_le part hPart
  rw [hSave, after_append, after_cons, actions_of_restores hBracket.restores]
  apply hInside.restore
  rw [← hSave]
  exact hBracket.level_eq

end Dialect

end Gdi

open Gdi

/-- Records behind a bracket find the session that they would find without it, in every
part, and draw the same. -/
theorem Picture.calls_replay_bracket {format : Format} (hFormat : format.isGdi) (header : Header)
    (before : List Record) {save restore : Record} {inside : List Record} {level : Int}
    (hBracket : (format.dialect header).Bracket
      ((format.dialect header).after (.initial header.initialMap) before)
      save inside restore level)
    (behind : List Record) :
    let d := format.dialect header
    let start := Session.initial header.initialMap
    let bracket := save :: (inside ++ [restore])
    d.after start (before ++ bracket) = d.after start before ∧
      d.after start (before ++ bracket ++ behind) = d.after start (before ++ behind) ∧
      ∀ error o,
        (Picture.replay ⟨format, some header, before ++ bracket ++ behind, error⟩ o).calls =
          (Picture.replay ⟨format, some header, before ++ bracket, error⟩ o).calls ++
            d.drawn (d.after start before) behind ∧
        (Picture.replay ⟨format, some header, before ++ behind, error⟩ o).calls =
          (Picture.replay ⟨format, some header, before, error⟩ o).calls ++
            d.drawn (d.after start before) behind := by
  intro d start bracket
  have hAfter : d.after start (before ++ bracket) = d.after start before := by
    rw [d.after_append]
    exact hBracket.after_eq
  refine ⟨hAfter, ?_, ?_⟩
  · rw [d.after_append, hAfter, ← d.after_append]
  · intro error o
    simp only [Picture.calls_replay_of_isGdi hFormat]
    constructor
    · rw [d.drawn_append start (before ++ bracket), hAfter, List.append_assoc]
    · rw [d.drawn_append start before, List.append_assoc]

/-- A bracket in a WMF file without a bounding box. Inside it the mapping and the position
change, another context is saved and never restored, and a level is out of range. -/
theorem calls_replay_bracket_nestedContexts :
    let header : Header := .wmf ⟨none, 1, 9, 0x300, 0, 0, 0, 0⟩
    let before : List Record := [⟨0x214, 5, 0, 18, #[8, 0, 9, 0]⟩]
    let save : Record := ⟨0x1E, 3, 0, 28, #[]⟩
    let inside : List Record := [⟨0x20B, 5, 0, 34, #[5, 0, 5, 0]⟩, ⟨0x1E, 3, 0, 44, #[]⟩,
      ⟨0x214, 5, 0, 50, #[1, 0, 2, 0]⟩, ⟨0x127, 4, 0, 60, #[7, 0]⟩]
    let restore : Record := ⟨0x127, 4, 0, 68, #[0xFE, 0xFF]⟩
    let bracket := save :: (inside ++ [restore])
    let behind : List Record := [⟨0x213, 5, 0, 76, #[3, 0, 4, 0]⟩]
    let outer := Wmf.dialect.after (.initial header.initialMap) before
    Format.wmf.isGdi ∧ Wmf.dialect.Bracket outer save inside restore (-2) ∧
      Wmf.dialect.after (.initial header.initialMap) (before ++ bracket) = outer ∧
      ∀ o,
        (Picture.replay ⟨.wmf, some header, before ++ bracket ++ behind, none⟩ o).calls =
          (Picture.replay ⟨.wmf, some header, before ++ bracket, none⟩ o).calls ++
            Wmf.dialect.drawn outer behind := by
  intro header before save inside restore bracket behind outer
  have hBracket : Wmf.dialect.Bracket outer save inside restore (-2) := {
    saves := rfl
    restores := ⟨rfl, by decide, by decide⟩
    not_recording := rfl
    depth_le := by
      intro part hPart
      have hTake : ∀ n < 5, 1 ≤ (Wmf.dialect.after outer (save :: inside.take n)).saved.length := by
        decide
      rw [List.prefix_iff_eq_take.1 hPart]
      exact hTake _ (Nat.lt_succ_of_le hPart.length_le)
    effect_ne := by decide
    level_eq := .inr ⟨2, by decide, by decide⟩ }
  obtain ⟨hAfter, -, hCalls⟩ :=
    @Picture.calls_replay_bracket .wmf rfl header before save restore inside (-2) hBracket behind
  exact ⟨rfl, hBracket, hAfter, fun o => (hCalls none o).1⟩

end Metafile
