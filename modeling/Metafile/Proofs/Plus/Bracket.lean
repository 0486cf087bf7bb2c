import Mathlib.Data.List.TakeWhile
import Metafile.Proofs.Plus.Effect

/-! Brackets of EMF+ records: what stands between a record that saves the transform under an
index and the one that restores this index. The stack of saved transforms is searched from the
newest one on, and what lies above the transform that is found is given up with it, so the
records behind a bracket draw what they would draw without it. -/

namespace Metafile

namespace Plus

/-- A record of a kind that has room for an index, and the index in it. -/
def Names (kind : Kind) (r : Record) (index : Nat) : Prop :=
  Kind.ofCode? (r.opcode % 0x10000) = some kind ∧ 4 ≤ r.payload.size ∧ r.payload.u32At 0 = index

/-- Kinds whose records ask for one action about the index in them. -/
def Kind.indexed? : Kind → Option (Nat → Action)
  | .save => some .save
  | .restore => some .restore
  | _ => none

/-- Records that save or restore under an index read the index and do nothing else. -/
theorem actions_of_indexed {kind : Kind} {action : Nat → Action}
    (hKind : kind.indexed? = some action) (f : Flags) (p : Bytes) :
    actions kind f p = .ofExcept ((p.need 4).map fun _ => [action (p.u32At 0)]) := by
  cases kind with
  | save | restore =>
      cases hKind
      rfl
  | _ => cases hKind

/-- So a record with room for its index asks for this one action. -/
theorem actions_of_names {kind : Kind} {action : Nat → Action} {r : Record} {index : Nat}
    (hNames : Names kind r index) (hAction : kind.indexed? = some action) :
    (reading r).actions = [action index] := by
  obtain ⟨hKind, hSize, rfl⟩ := hNames
  rw [reading, hKind]
  dsimp only
  rw [actions_of_indexed hAction, Bytes.need_eq_ok_iff.2 hSize]
  rfl

/-- A record that saves or restores a transform does nothing else. -/
theorem actions_of_stack (r : Record) :
    (∀ action ∈ (reading r).actions, action.effect ≠ .stack) ∨
      ∃ action, (reading r).actions = [action] ∧ action.effect = .stack := by
  by_cases hStack : ∃ action ∈ (reading r).actions, action.effect = .stack
  · obtain ⟨action, hMem, hEffect⟩ := hStack
    obtain ⟨kind, hKind, hSame⟩ := effect_of_mem hMem
    rw [reading, hKind] at hMem ⊢
    dsimp only at hMem ⊢
    have hIndexed : ∃ asked, kind.indexed? = some asked := by
      rw [hEffect] at hSame
      cases kind with
      | save | restore => exact ⟨_, rfl⟩
      | _ => cases hSame
    obtain ⟨asked, hAsked⟩ := hIndexed
    rw [actions_of_indexed hAsked] at hMem ⊢
    cases hNeed : r.payload.need 4 with
    | error fault =>
        rw [hNeed] at hMem
        cases hMem
    | ok _ =>
        rw [hNeed] at hMem
        obtain rfl := List.mem_singleton.1 hMem
        exact .inr ⟨_, rfl, hEffect⟩
  · exact .inl fun action hMem hEffect => hStack ⟨action, hMem, hEffect⟩

namespace Session

/-- An index brings back the newest transform that is saved under it and gives up those above
it; an index that nothing is saved under changes nothing. -/
theorem restore_cases (s : Session) (index : Nat) :
    s.step (.restore index) = s ∧ s.draw (.restore index) = [] ∨
      ∃ newer entry older, s.saved = newer ++ entry :: older ∧ entry.index = index ∧
        (∀ other ∈ newer, other.index ≠ index) ∧
        s.step (.restore index) = { s with transform := entry.transform, saved := older } ∧
        s.draw (.restore index) = List.replicate (newer.length + 1) .restoreState := by
  cases hFrom : s.savedFrom index with
  | nil => exact .inl ⟨by simp only [step, hFrom], by simp only [draw, hFrom]⟩
  | cons entry older =>
      right
      have hSaved : s.saved.takeWhile (fun other => other.index != index) ++ entry :: older =
          s.saved := by
        rw [← hFrom, savedFrom, List.takeWhile_append_dropWhile]
      refine ⟨_, entry, older, hSaved.symm, ?_, ?_, by simp only [step, hFrom], ?_⟩
      · have hStays := List.head?_dropWhile_not (fun other : SavedTransform => other.index != index)
          s.saved
        rw [← savedFrom, hFrom] at hStays
        simpa using hStays
      · intro other hMem
        exact bne_iff_ne.1
          (List.mem_takeWhile_imp (p := fun entry : SavedTransform => entry.index != index) hMem)
      · have hLength : s.saved.length - older.length =
            (s.saved.takeWhile fun other => other.index != index).length + 1 := by
          have hTotal := congrArg List.length hSaved
          rw [List.length_append, List.length_cons] at hTotal
          omega
        simp only [draw, hFrom, hLength]

/-- Where a transform is saved under an index and none above it is, the index leads back to
it. -/
theorem step_restore {s : Session} {index : Nat} {newer older : List SavedTransform}
    {transform : Affine Float} (hSaved : s.saved = newer ++ ⟨index, transform⟩ :: older)
    (hNewer : ∀ other ∈ newer, other.index ≠ index) :
    s.step (.restore index) = { s with transform, saved := older } := by
  have hFrom : s.savedFrom index = ⟨index, transform⟩ :: older := by
    rw [savedFrom, hSaved, List.dropWhile_append_of_pos]
    · simp
    · intro other hMem
      exact bne_iff_ne.2 (hNewer other hMem)
  simp only [step, hFrom]

/-- A step never drops one of the oldest transforms without going below their number. -/
theorem suffix_saved_step {s : Session} {action : Action} {kept : List SavedTransform}
    (hKept : kept <:+ s.saved) (hDepth : kept.length ≤ (s.step action).saved.length) :
    kept <:+ (s.step action).saved := by
  by_cases hEffect : action.effect = .stack
  · cases action with
    | save index => exact hKept.trans (List.suffix_cons ..)
    | restore index =>
        rcases s.restore_cases index with ⟨hSame, -⟩ | ⟨newer, entry, older, hSaved, -, -, hStep, -⟩
        · rwa [hSame]
        · rw [hStep] at hDepth ⊢
          have hOlder : older <:+ s.saved := by
            rw [hSaved]
            exact (List.suffix_cons ..).trans (List.suffix_append ..)
          exact List.suffix_of_suffix_length_le hKept hOlder hDepth
    | _ => cases hEffect
  · rwa [saved_step hEffect]

/-- The transform of a session is put aside under an index in a later one, where the objects
are still the same. -/
structure Sheltered (outer : Session) (index : Nat) (s : Session) : Prop where
  objects_eq : s.objects = outer.objects
  saved : ⟨index, outer.transform⟩ :: outer.saved <:+ s.saved

/-- Right behind the record that saves it, the outer transform is on top of those that are
saved. -/
theorem sheltered_save (s : Session) (index : Nat) : Sheltered s index (s.step (.save index)) :=
  ⟨rfl, List.suffix_rfl⟩

namespace Sheltered

variable {outer s : Session} {index : Nat}

/-- As long as the outer transform is kept, there is one saved transform more than outside. -/
theorem depth_le (hSheltered : Sheltered outer index s) :
    outer.saved.length + 1 ≤ s.saved.length :=
  hSheltered.saved.length_le

/-- An action that leaves the objects alone and does not go below the depth of the bracket keeps
the outer transform where it is. Restoring inside takes away only transforms above it. -/
theorem step (hSheltered : Sheltered outer index s) {action : Action}
    (hObjects : action.effect ≠ .objects)
    (hDepth : outer.saved.length + 1 ≤ (s.step action).saved.length) :
    Sheltered outer index (s.step action) where
  objects_eq := (objects_step hObjects).trans hSheltered.objects_eq
  saved := suffix_saved_step hSheltered.saved hDepth

/-- Any number of actions that neither save nor restore keep it sheltered. The induction is on
the actions, with the step as each case. -/
theorem run (hSheltered : Sheltered outer index s) {actions : List Action}
    (hActions : ∀ action ∈ actions, action.effect ≠ .objects ∧ action.effect ≠ .stack) :
    Sheltered outer index (plotter.run s actions) := by
  refine plotter.run_preserves (Sheltered outer index) ?_ hActions hSheltered
  rintro t action hBefore ⟨hObjects, hStack⟩
  have hDepth : outer.saved.length + 1 ≤ (t.step action).saved.length := by
    rw [saved_step hStack]
    exact hBefore.depth_le
  exact hBefore.step hObjects hDepth

/-- The index leads back to the session if no transform saved later is left under it. -/
theorem restore (hSheltered : Sheltered outer index s)
    (hNewer : ∀ entry ∈ s.saved.take (s.saved.length - (outer.saved.length + 1)),
      entry.index ≠ index) :
    s.step (.restore index) = outer := by
  obtain ⟨newer, hSaved⟩ := hSheltered.saved
  have hTake : s.saved.take (s.saved.length - (outer.saved.length + 1)) = newer := by
    rw [← hSaved, List.length_append, List.length_cons, Nat.add_sub_cancel, List.take_left]
  rw [hTake] at hNewer
  rw [step_restore hSaved.symm hNewer, hSheltered.objects_eq]

end Sheltered

end Session

section

variable {s : Session} {r : Record} {index : Nat}

/-- The record that opens the bracket takes one step, behind which the others go on. -/
theorem after_save (hNames : Names .save r index) (rs : List Record) :
    after s (r :: rs) = after (s.step (.save index)) rs := by
  rw [after_cons, actions_of_names hNames rfl]
  rfl

theorem after_restore (hNames : Names .restore r index) :
    after s [r] = s.step (.restore index) := by
  rw [after_cons, actions_of_names hNames rfl]
  rfl

/-- A record that restores a transform takes some entries off the stack of saved ones, and
restores one state of the surface for each of them. -/
theorem drawn_restore (hNames : Names .restore r index) :
    ∃ popped, s.saved = popped ++ (after s [r]).saved ∧
      drawn s [r] = List.replicate popped.length .restoreState := by
  have hDrawn : drawn s [r] = s.draw (.restore index) := by
    rw [drawn, Plotter.drawn_cons, actions_of_names hNames rfl]
    exact (List.append_nil _).trans (List.append_nil _)
  rw [after_restore hNames, hDrawn]
  rcases s.restore_cases index with
    ⟨hStep, hDraw⟩ | ⟨newer, entry, older, hSaved, -, -, hStep, hDraw⟩
  · rw [hStep, hDraw]
    exact ⟨[], rfl, rfl⟩
  · rw [hStep, hDraw]
    refine ⟨newer ++ [entry], ?_, ?_⟩
    · rw [hSaved, List.append_assoc, List.singleton_append]
    · rw [List.length_append, List.length_singleton]

end

section

variable {outer s : Session} {index : Nat}

/-- A record shelters the outer transform as its actions do, one after the other. -/
theorem sheltered_after_record (hSheltered : outer.Sheltered index s) {r : Record}
    (hObject : Kind.ofCode? (r.opcode % 0x10000) ≠ some .object)
    (hDepth : outer.saved.length + 1 ≤ (after s [r]).saved.length) :
    outer.Sheltered index (after s [r]) := by
  have hObjects : ∀ action ∈ (reading r).actions, action.effect ≠ .objects := by
    intro action hMem hEffect
    obtain ⟨kind, hKind, hSame⟩ := effect_of_mem hMem
    rw [hEffect] at hSame
    cases kind with
    | object => exact hObject hKind
    | _ => cases hSame
  rw [after_cons] at hDepth ⊢
  rcases actions_of_stack r with hNone | ⟨action, hOne, hStack⟩
  · exact hSheltered.run fun action hMem => ⟨hObjects action hMem, hNone action hMem⟩
  · rw [hOne] at hDepth ⊢
    exact hSheltered.step (by simp [hStack]) hDepth

/-- Records between the two keep the outer transform sheltered if none of them goes below it on
the way. The depth is asked for behind every part of them, as a record inside may restore too far
and another save again. -/
theorem sheltered_after (hSheltered : outer.Sheltered index s) {rs : List Record}
    (hObject : ∀ r ∈ rs, Kind.ofCode? (r.opcode % 0x10000) ≠ some .object)
    (hDepth : ∀ part, part <+: rs → outer.saved.length + 1 ≤ (after s part).saved.length) :
    outer.Sheltered index (after s rs) := by
  induction rs generalizing s with
  | nil => exact hSheltered
  | cons r rest ih =>
      obtain ⟨hFirst, hRest⟩ := List.forall_mem_cons.1 hObject
      have hRecord : outer.Sheltered index (after s [r]) :=
        sheltered_after_record hSheltered hFirst (hDepth [r] ⟨rest, rfl⟩)
      rw [← List.singleton_append, after_append]
      refine ih hRecord hRest ?_
      intro part hPart
      rw [← after_append]
      exact hDepth ([r] ++ part) ((List.prefix_append_right_inj [r]).2 hPart)

end

/-- Records in a session. The first one saves the transform under an index and the last one
restores this index. Between them no object is stored and the saved transform is never taken
off the stack, and in the end nothing above it is saved under the same index. -/
structure Bracket (outer : Session) (save : Record) (inside : List Record) (restore : Record)
    (index : Nat) : Prop where
  saves : Names .save save index
  restores : Names .restore restore index
  not_object : ∀ r ∈ inside, Kind.ofCode? (r.opcode % 0x10000) ≠ some .object
  depth_le : ∀ part, part <+: inside →
    outer.saved.length + 1 ≤ (after outer (save :: part)).saved.length
  index_ne :
    let saved := (after outer (save :: inside)).saved
    ∀ entry ∈ saved.take (saved.length - (outer.saved.length + 1)), entry.index ≠ index

/-- A bracket leaves the session exactly as it was outside, with the objects and the saved
transforms, whatever the records inside have drawn. -/
theorem Bracket.after_eq {outer : Session} {save restore : Record} {inside : List Record}
    {index : Nat} (hBracket : Bracket outer save inside restore index) :
    after outer (save :: (inside ++ [restore])) = outer := by
  have hInside : outer.Sheltered index (after outer (save :: inside)) := by
    rw [after_save hBracket.saves]
    refine sheltered_after (outer.sheltered_save index) hBracket.not_object ?_
    intro part hPart
    rw [← after_save hBracket.saves]
    exact hBracket.depth_le part hPart
  rw [← List.cons_append, after_append, after_restore hBracket.restores]
  exact hInside.restore hBracket.index_ne

end Plus

open Plus

/-- Records behind a bracket find the transform, the saved transforms and the objects that they
would find without it, and draw the same. The record at the end of a bracket, and any other one
that restores a transform, restores as many states of the surface as it takes entries off the
stack. -/
theorem Picture.calls_replay_transformBracket (header : Header) (before : List Record)
    {save restore : Record} {inside : List Record} {index : Nat}
    (hBracket : Bracket (after .initial before) save inside restore index)
    (behind : List Record) :
    let outer := after .initial before
    let inner := after .initial (before ++ save :: inside)
    let bracket := save :: (inside ++ [restore])
    after .initial (before ++ bracket) = outer ∧
      (∃ popped, inner.saved = popped ++ outer.saved ∧
        drawn inner [restore] = List.replicate popped.length .restoreState) ∧
      (∀ (s : Session) (r : Record) (other : Nat), Names .restore r other →
        ∃ popped, s.saved = popped ++ (after s [r]).saved ∧
          drawn s [r] = List.replicate popped.length .restoreState) ∧
      ∀ error o,
        (Picture.replay ⟨.emfPlus, some header, before ++ bracket ++ behind, error⟩ o).calls =
          (Picture.replay ⟨.emfPlus, some header, before ++ bracket, error⟩ o).calls ++
            drawn outer behind ∧
        (Picture.replay ⟨.emfPlus, some header, before ++ behind, error⟩ o).calls =
          (Picture.replay ⟨.emfPlus, some header, before, error⟩ o).calls ++
            drawn outer behind := by
  intro outer inner bracket
  have hAfter : after .initial (before ++ bracket) = outer := by
    rw [after_append]
    exact hBracket.after_eq
  refine ⟨hAfter, ?_, fun s r other hNames => drawn_restore hNames, ?_⟩
  · obtain ⟨popped, hSaved, hDrawn⟩ := drawn_restore (s := inner) hBracket.restores
    have hRestored : after inner [restore] = outer := by
      rw [← hAfter, ← after_append, List.append_assoc, List.cons_append]
    rw [hRestored] at hSaved
    exact ⟨popped, hSaved, hDrawn⟩
  · intro error o
    have hCalls : ∀ rs,
        (Picture.replay ⟨.emfPlus, some header, rs, error⟩ o).calls =
          o.setup header ++ drawn .initial rs := fun rs => Replay.calls_ofRecords ..
    simp only [hCalls]
    constructor
    · rw [drawn_append .initial (before ++ bracket), hAfter, List.append_assoc]
    · rw [drawn_append .initial before, List.append_assoc]

/-- A bracket under index 7. Inside it the transform is moved and saved under 7 again, which is
restored, and under 9, which never is. Two states of the surface are restored at its end. -/
theorem calls_replay_transformBracket_openIndex :
    let header : Header := .emf ⟨1, 88, ⟨0, 0, 99, 49⟩, ⟨0, 0, 0, 0⟩, Emf.Header.expectedSignature,
      0x10000, 148, 3, 1, 0, 0, 0, 0, ⟨1024, 768⟩, ⟨320, 240⟩⟩
    let move : Record := ⟨0x402D, 20, 0, 28, #[0, 0, 0x80, 0x3F, 0, 0, 0, 0x40]⟩
    let save : Record := ⟨0x4025, 16, 0, 48, #[7, 0, 0, 0]⟩
    let restore : Record := ⟨0x4026, 16, 0, 64, #[7, 0, 0, 0]⟩
    let other : Record := ⟨0x4025, 16, 0, 80, #[9, 0, 0, 0]⟩
    let inside : List Record := [move, save, move, restore, other]
    let bracket := save :: (inside ++ [restore])
    let outer := after .initial [move]
    Bracket outer save inside restore 7 ∧ after .initial ([move] ++ bracket) = outer ∧
      drawn (after .initial ([move] ++ save :: inside)) [restore] =
        [.restoreState, .restoreState] ∧
      ∀ o,
        (Picture.replay ⟨.emfPlus, some header, [move] ++ bracket ++ [move], none⟩ o).calls =
          (Picture.replay ⟨.emfPlus, some header, [move] ++ bracket, none⟩ o).calls ++
            drawn outer [move] := by
  intro header move save restore other inside bracket outer
  have hBracket : Bracket outer save inside restore 7 := {
    saves := ⟨rfl, by decide, by decide⟩
    restores := ⟨rfl, by decide, by decide⟩
    not_object := by decide
    depth_le := by
      intro part hPart
      have hTake : ∀ n < 6, 1 ≤ (after outer (save :: inside.take n)).saved.length := by
        decide +kernel
      rw [List.prefix_iff_eq_take.1 hPart]
      exact hTake _ (Nat.lt_succ_of_le hPart.length_le)
    index_ne := by decide +kernel }
  obtain ⟨hAfter, ⟨popped, hSaved, hDrawn⟩, -, hCalls⟩ :=
    Picture.calls_replay_transformBracket header [move] hBracket [move]
  have hLength : popped.length = 2 := by
    have hInner : (after .initial ([move] ++ save :: inside)).saved.length = 2 := by
      decide +kernel
    rw [hSaved, List.length_append] at hInner
    exact hInner
  rw [hLength] at hDrawn
  exact ⟨hBracket, hAfter, hDrawn, fun o => (hCalls none o).1⟩

end Metafile
