import Mathlib.Logic.Function.Basic
import Mathlib.Order.Bounds.Basic
import Metafile.Proofs.Bytes.Part
import Metafile.Proofs.Gdi.Dialect
import Metafile.Proofs.Gdi.Frame
import Metafile.Proofs.Gdi.ObjectTable

/-! The handles of WMF objects. Records that create objects do not say which handles these
get: a file counts on each of them taking the least free one, also those of objects
that nothing is drawn with. -/

namespace Metafile.Wmf

open Gdi

/-- The object that a record of a kind describes, if it is one that creates objects. -/
def Kind.described? (kind : Kind) (p : Bytes) : Option Object :=
  match kind with
  | .createPenIndirect => some (.pen (penAt p 0))
  | .createBrushIndirect => some (.brush (brushAt p 0))
  | .createFontIndirect => some (.font (fontAt p 0))
  | .createPalette => some (.placeholder .palette)
  | .createPatternBrush | .dibCreatePatternBrush => some (.placeholder .patternBrush)
  | .createRegion => some (.placeholder .region)
  | _ => none

/-- The object that a record creates if it can be read. -/
def described? (r : Record) : Option Object :=
  (Kind.ofCode? (r.opcode % 0x10000)).bind fun kind => kind.described? r.payload

/-- A record of a kind that has room for a handle, and the handle in it. -/
def Names (kind : Kind) (r : Record) (handle : Nat) : Prop :=
  Kind.ofCode? (r.opcode % 0x10000) = some kind ∧ 2 ≤ r.payload.size ∧ r.payload.u16At 0 = handle

/-- The handles are assigned in the order of the records. An object gets the least handle
that is free, and a handle is free again once its object is deleted. -/
inductive Assigns :
    (Nat → Option Object) → List Record → (Nat → Option Object) → Prop where
  | nil (live : Nat → Option Object) : Assigns live [] live
  | create {live last : Nat → Option Object} {r : Record} {rs : List Record} {object : Object}
      {handle : Nat} (hObject : described? r = some object)
      (hLeast : IsLeast {other | live other = none} handle)
      (later : Assigns (Function.update live handle (some object)) rs last) :
      Assigns live (r :: rs) last
  | delete {live last : Nat → Option Object} {r : Record} {rs : List Record} {handle : Nat}
      (hNames : Names .deleteObject r handle)
      (later : Assigns (Function.update live handle none) rs last) : Assigns live (r :: rs) last
  | other {live last : Nat → Option Object} {r : Record} {rs : List Record}
      (hObject : described? r = none) (hNames : ∀ handle, ¬Names .deleteObject r handle)
      (later : Assigns live rs last) : Assigns live (r :: rs) last

/-- A record that describes an object asks to create it and for nothing else. -/
theorem Kind.actions_eq_create {kind : Kind} {p : Bytes} {object : Object} {asked : List Action}
    (hObject : kind.described? p = some object) (hRead : actions kind p = .ok asked) :
    asked = [.create object] := by
  cases kind with
  | createPenIndirect | createBrushIndirect | createFontIndirect =>
      cases hObject
      obtain ⟨_, -, hRead⟩ := bind_eq_ok_iff.1 hRead
      exact (Except.ok.inj hRead).symm
  | createPalette | createPatternBrush | dibCreatePatternBrush | createRegion =>
      cases hObject
      exact (Except.ok.inj hRead).symm
  | _ => cases hObject

section

variable {r : Record} {handle : Nat} {object : Object}

/-- A record that can be read creates the object that it describes. -/
theorem actions_of_described (hObject : described? r = some object)
    (hDone : (reading r).outcome = .done) : (dialect.reading r).actions = [.create object] := by
  rw [reading_dialect]
  unfold described? at hObject
  unfold reading at *
  cases hKind : Kind.ofCode? (r.opcode % 0x10000) with
  | none =>
      rw [hKind] at hObject
      cases hObject
  | some kind =>
      rw [hKind] at hObject hDone
      dsimp only at hDone ⊢
      cases hRead : actions kind r.payload with
      | error fault =>
          rw [hRead] at hDone
          cases hDone
      | ok asked => exact Kind.actions_eq_create hObject hRead

/-- A record that names a handle can be read. -/
theorem actions_of_names {kind : Kind} {action : Nat → Action} (hNames : Names kind r handle)
    (hActions : ∀ p : Bytes, actions kind p = (p.need 2).map fun _ => [action (p.u16At 0)]) :
    (dialect.reading r).actions = [action handle] := by
  obtain ⟨hKind, hSize, rfl⟩ := hNames
  rw [reading_dialect, reading, hKind]
  dsimp only
  rw [hActions, Bytes.need_eq_ok_iff.2 hSize]
  rfl

/-- Records that neither describe an object nor name one to delete ask for nothing about
objects. -/
theorem effect_ne_objects (hObject : described? r = none)
    (hNames : ∀ handle, ¬Names .deleteObject r handle) {action : Action}
    (hMem : action ∈ (dialect.reading r).actions) : action.effect ≠ .objects := by
  intro hEffect
  rw [Dialect.effect_eq hMem] at hEffect
  rw [reading_dialect] at hMem
  unfold Dialect.effectOf at hEffect
  unfold described? at hObject
  unfold reading at hMem
  unfold Names at hNames
  cases hKind : Kind.ofCode? (r.opcode % 0x10000) with
  | none =>
      rw [hKind] at hMem
      cases hMem
  | some kind =>
      have hObjects : kind.effect = .objects := by simpa [dialect, hKind] using hEffect
      rw [hKind] at hObject hMem hNames
      cases kind with
      | deleteObject =>
          have hShort : ¬2 ≤ r.payload.size := fun hSize => hNames _ ⟨rfl, hSize, rfl⟩
          have hRead : r.payload.need 2 = .error (.payloadTooShort r.payload.size 2) := by
            rw [Bytes.need, if_pos (Nat.not_le.1 hShort)]
          simp [actions, hRead, Reading.ofExcept, bind, Except.bind] at hMem
      | createPenIndirect | createBrushIndirect | createFontIndirect | createPalette
      | createPatternBrush | dibCreatePatternBrush | createRegion => cases hObject
      | _ => cases hObjects

end

section

variable {s : Session} {r : Record}

/-- What is found in the table of objects behind a record that creates one. -/
theorem select?_after_create {object : Object} (hObject : described? r = some object)
    (hDone : (reading r).outcome = .done) :
    (dialect.after s [r]).objects.select? =
      Function.update s.objects.select? s.objects.nextHandle (some object) := by
  rw [dialect.after_cons, actions_of_described hObject hDone]
  funext handle
  rw [Function.update_apply]
  exact s.objects.select?_put s.objects.nextHandle handle object

theorem after_delete {handle : Nat} (hNames : Names .deleteObject r handle) :
    dialect.after s [r] = { s with objects := s.objects.delete handle } := by
  rw [dialect.after_cons, actions_of_names hNames fun _ => rfl]
  rfl

/-- Behind a record that deletes a handle this handle names nothing, and the others name what
they did. -/
theorem select?_after_delete {handle : Nat} (hNames : Names .deleteObject r handle) :
    (dialect.after s [r]).objects.select? = Function.update s.objects.select? handle none := by
  rw [after_delete hNames]
  funext other
  rw [Function.update_apply]
  exact s.objects.select?_delete handle other

/-- A record that selects a handle gives the context what the handle names at this moment. Later
records may give the handle away without a trace in the context. -/
theorem after_select {handle : Nat} (hNames : Names .selectObject r handle) :
    dialect.after s [r] = { s with dc := s.dc.select (s.objects.select? handle) } := by
  have hHandle : handle < Object.stockBase := by
    obtain ⟨-, -, rfl⟩ := hNames
    exact Nat.lt_trans (Bytes.field_lt r.payload 0 2) (by decide)
  rw [dialect.after_cons, actions_of_names hNames fun _ => rfl,
    ← s.objects.resolve?_eq_select? hHandle]
  rfl

/-- All other records leave the table alone, whatever they hold. -/
theorem objects_after_other (hObject : described? r = none)
    (hNames : ∀ handle, ¬Names .deleteObject r handle) :
    (dialect.after s [r]).objects = s.objects := by
  rw [dialect.after_cons]
  exact s.objects_run fun action => effect_ne_objects hObject hNames

end

/-- Handles can be assigned to all objects, since a table has a least free slot. -/
theorem exists_assigns (s : Session) {rs : List Record}
    (hDone : ∀ r ∈ rs, (described? r).isSome → (reading r).outcome = .done) :
    ∃ last, Assigns s.objects.select? rs last := by
  induction rs generalizing s with
  | nil => exact ⟨_, .nil _⟩
  | cons r rest ih =>
      obtain ⟨hFirst, hRest⟩ := List.forall_mem_cons.1 hDone
      obtain ⟨last, later⟩ := ih (dialect.after s [r]) hRest
      refine ⟨last, ?_⟩
      cases hObject : described? r with
      | some object =>
          rw [select?_after_create hObject (hFirst (by rw [hObject]; rfl))] at later
          exact .create hObject s.objects.isLeast_nextHandle later
      | none =>
          by_cases hNames : ∃ handle, Names .deleteObject r handle
          · obtain ⟨handle, hNames⟩ := hNames
            rw [select?_after_delete hNames] at later
            exact .delete hNames later
          · have hNames' : ∀ handle, ¬Names .deleteObject r handle := not_exists.1 hNames
            rw [objects_after_other hObject hNames'] at later
            exact .other hObject hNames' later

/-- Assigned handles are those at which a replay finds the objects. -/
theorem Assigns.select?_after {s : Session} {rs : List Record} {live last : Nat → Option Object}
    (hAssigns : Assigns live rs last) (hLive : s.objects.select? = live)
    (hDone : ∀ r ∈ rs, (described? r).isSome → (reading r).outcome = .done) :
    (dialect.after s rs).objects.select? = last := by
  induction hAssigns generalizing s with
  | nil live => exact hLive
  | @create live last r rs object handle hObject hLeast later ih =>
      obtain ⟨hFirst, hRest⟩ := List.forall_mem_cons.1 hDone
      have hHandle : s.objects.nextHandle = handle := by
        subst hLive
        exact s.objects.isLeast_nextHandle.unique hLeast
      rw [← List.singleton_append, dialect.after_append]
      refine ih ?_ hRest
      rw [select?_after_create hObject (hFirst (by rw [hObject]; rfl)), hLive, hHandle]
  | delete hNames later ih =>
      rw [← List.singleton_append, dialect.after_append]
      refine ih ?_ (List.forall_mem_cons.1 hDone).2
      rw [select?_after_delete hNames, hLive]
  | other hObject hNames later ih =>
      rw [← List.singleton_append, dialect.after_append]
      refine ih ?_ (List.forall_mem_cons.1 hDone).2
      rw [objects_after_other hObject hNames, hLive]

/-- Wherever a record stands that selects a handle, the object that was assigned to it is
taken up: a pen, a brush or a font takes the place of the one before and changes
nothing else, and without an object, or with one that nothing is drawn with, nothing
changes at all. A record that deletes an object leaves the context as it is. -/
theorem after_select_assigned (map : CoordinateMap) (rs : List Record)
    (hDone : ∀ r ∈ rs, (described? r).isSome → (reading r).outcome = .done)
    {before behind : List Record} {r : Record} (hRs : rs = before ++ r :: behind) :
    let s := dialect.after (.initial map) before
    ∃ live, Assigns (fun _ => none) before live ∧
      (∀ other, Assigns (fun _ => none) before other → other = live) ∧
      (∀ handle, Names .selectObject r handle →
        (∀ pen, live handle = some (.pen pen) →
          dialect.after s [r] = { s with dc := { s.dc with pen } }) ∧
        (∀ brush, live handle = some (.brush brush) →
          dialect.after s [r] = { s with dc := { s.dc with brush } }) ∧
        (∀ font, live handle = some (.font font) →
          dialect.after s [r] = { s with dc := { s.dc with font := some font } }) ∧
        (live handle = none ∨ (∃ kind, live handle = some (.placeholder kind)) →
          dialect.after s [r] = s)) ∧
      ∀ handle, Names .deleteObject r handle → (dialect.after s [r]).dc = s.dc := by
  intro s
  have hBefore : ∀ r ∈ before, (described? r).isSome → (reading r).outcome = .done := by
    subst hRs
    exact fun r hMem => hDone r (List.mem_append_left _ hMem)
  have hEmpty : (Session.initial map).objects.select? = fun _ => none := by
    funext handle
    exact ObjectTable.select?_empty handle
  obtain ⟨live, hAssigns⟩ := exists_assigns (.initial map) hBefore
  rw [hEmpty] at hAssigns
  have hLive := hAssigns.select?_after hEmpty hBefore
  refine ⟨live, hAssigns, ?_, ?_, ?_⟩
  · intro other hOther
    rw [← hLive, ← hOther.select?_after hEmpty hBefore]
  · intro handle hNames
    have hAfter : dialect.after s [r] = { s with dc := s.dc.select (live handle) } := by
      rw [after_select hNames, ← hLive]
    rw [hAfter]
    refine ⟨?_, ?_, ?_, ?_⟩
    · intro pen hPen
      rw [hPen]
      rfl
    · intro brush hBrush
      rw [hBrush]
      rfl
    · intro font hFont
      rw [hFont]
      rfl
    · rintro (hNone | ⟨kind, hPlaceholder⟩)
      · rw [hNone]
        rfl
      · rw [hPlaceholder]
        rfl
  · intro handle hNames
    rw [after_delete hNames]

/-- A pen gets handle 0 and a palette handle 1. The pen is selected and deleted, so the font
behind it gets handle 0 again, and a region handle 2. -/
theorem after_select_assigned_reusedHandle :
    let font : Record :=
      ⟨0x2FB, 12, 0, 60, #[12, 0, 0, 0, 0, 0, 0, 0, 0, 0, 0, 0, 0, 0, 0, 0, 0, 0]⟩
    let before : List Record :=
      [⟨0x2FA, 8, 0, 18, #[0, 0, 1, 0, 0, 0, 0, 0, 0, 0]⟩, ⟨0xF7, 3, 0, 34, #[]⟩,
        ⟨0x12D, 4, 0, 40, #[0, 0]⟩, ⟨0x1F0, 4, 0, 48, #[0, 0]⟩, font, ⟨0x6FF, 3, 0, 84, #[]⟩]
    let select : Record := ⟨0x12D, 4, 0, 90, #[0, 0]⟩
    let s := dialect.after (.initial .initial) before
    (∀ r ∈ before ++ [select], (described? r).isSome → (reading r).outcome = .done) ∧
      Names .selectObject select 0 ∧
      dialect.after s [select] =
        { s with dc := { s.dc with font := some (fontAt font.payload 0) } } := by
  intro font before select s
  have hDone : ∀ r ∈ before ++ [select], (described? r).isSome → (reading r).outcome = .done := by
    decide
  have hNames : Names .selectObject select 0 := ⟨rfl, by decide, by decide⟩
  obtain ⟨live, -, hUnique, hSelect, -⟩ :=
    after_select_assigned .initial (before ++ [select]) hDone
      (rfl : before ++ [select] = before ++ select :: [])
  have hOther : ∀ handle, ¬Names .deleteObject ⟨0x12D, 4, 0, 40, #[0, 0]⟩ handle :=
    fun handle hNames => absurd hNames.1 (by decide)
  have hDeletes : Names .deleteObject ⟨0x1F0, 4, 0, 48, #[0, 0]⟩ 0 := ⟨rfl, by decide, by decide⟩
  have hZero : ∀ live : Nat → Option Object, live 0 = none →
      IsLeast {other | live other = none} 0 :=
    fun live hFree => ⟨hFree, fun _ _ => Nat.zero_le _⟩
  have hOne : ∀ pen : Object,
      IsLeast {other | Function.update (fun _ => none) 0 (some pen) other = none} 1 := by
    refine fun pen => ⟨rfl, ?_⟩
    rintro (_ | other) hNone
    · cases hNone
    · exact Nat.le_add_left ..
  have hTwo : ∀ pen palette font : Object,
      IsLeast {other | Function.update (Function.update (Function.update (Function.update
        (fun _ => none) 0 (some pen)) 1 (some palette)) 0 none) 0 (some font) other = none} 2 := by
    refine fun pen palette font => ⟨rfl, ?_⟩
    rintro (_ | _ | other) hNone
    · cases hNone
    · cases hNone
    · exact Nat.le_add_left ..
  have hAssigns : Assigns (fun _ => none) before _ :=
    .create rfl (hZero _ rfl) (.create rfl (hOne _) (.other rfl hOther (.delete hDeletes
      (.create rfl (hZero _ rfl) (.create rfl (hTwo _ _ _) (.nil _))))))
  have hFont : live 0 = some (.font (fontAt font.payload 0)) := by
    rw [← hUnique _ hAssigns]
    rfl
  exact ⟨hDone, hNames, (hSelect 0 hNames).2.2.1 _ hFont⟩

end Metafile.Wmf
