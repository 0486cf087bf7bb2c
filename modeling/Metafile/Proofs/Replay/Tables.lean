import Metafile.Proofs.Plus.Effect
import Metafile.Proofs.Wmf.Handles

/-! How large tables of objects become. EMF and EMF+ records say at which handle an object is
stored, and a table grows to the handle that it is told, so handles have to be bounded. WMF
objects take the least free handle. -/

namespace Metafile

namespace Gdi

/-- Stores objects only at handles below a limit. -/
def Action.KeepsBelow (limit : Nat) : Action → Prop
  | .create _ => False
  | .put handle _ => handle < limit
  | _ => True

theorem Action.keepsBelow_of_effect_ne {limit : Nat} {action : Action}
    (hEffect : action.effect ≠ .objects) : action.KeepsBelow limit := by
  cases action with
  | create _ | put _ _ => exact absurd rfl hEffect
  | _ => trivial

namespace Session

variable {s : Session} {limit : Nat}

/-- An action whose handle is below the limit leaves the table below it, however it was
filled. -/
theorem size_step_le {action : Action} (hKeeps : action.KeepsBelow limit)
    (hSize : s.objects.slots.size ≤ limit) : (s.step action).objects.slots.size ≤ limit := by
  by_cases hEffect : action.effect = .objects
  · cases action with
    | create _ => cases hKeeps
    | put handle object =>
        have hHandle : handle < limit := hKeeps
        show (s.objects.put handle object).slots.size ≤ limit
        rw [ObjectTable.size_put]
        omega
    | delete handle => exact (s.objects.size_delete handle).trans_le hSize
    | _ => cases hEffect
  · rwa [objects_step hEffect]

/-- The bound is kept by any number of such actions. It does not depend on what is in the slots,
so nothing else has to be carried along. -/
theorem size_run_le {actions : List Action} (hKeeps : ∀ action ∈ actions, action.KeepsBelow limit)
    (hSize : s.objects.slots.size ≤ limit) :
    (plotter.run s actions).objects.slots.size ≤ limit :=
  plotter.run_preserves (fun t => t.objects.slots.size ≤ limit)
    (fun _ _ hBefore hAction => size_step_le hAction hBefore) hKeeps hSize

end Session

end Gdi

open Gdi

namespace Emf

/-- A record of EMF that defines an object checks its handle against the limit first. -/
theorem asks_keepsBelow (limit : Nat) (kind : Kind) (p : Bytes) :
    Asks (Action.KeepsBelow limit) (actions limit kind p) := by
  cases kind with
  | createPen | extCreatePen | createBrushIndirect | extCreateFontIndirectW | createMonoBrush
  | createDibPatternBrushPt | createPalette | createColorSpace | createColorSpaceW =>
      exact asks_bind.2 fun _ _ => asks_storing id
  | deleteObject | deleteColorSpace =>
      exact asks_bind.2 fun _ _ => asks_singleton.2 trivial
  | _ =>
      intro asked hRead action hMem
      refine Action.keepsBelow_of_effect_ne ?_
      rw [yields_actions limit _ p asked hRead action hMem]
      nofun

/-- A record of a kind that has room for a handle, and the handle in it. -/
def Names (kind : Kind) (r : Record) (handle : Nat) : Prop :=
  Kind.ofCode? r.opcode = some kind ∧ 4 ≤ r.payload.size ∧ r.payload.u32At 0 = handle

/-- So the table of EMF stays below the limit over any records, since every handle that is
defined has been checked against it. -/
theorem size_after_le {s : Session} {limit : Nat} (hSize : s.objects.slots.size ≤ limit)
    (rs : List Record) : ((dialect limit).after s rs).objects.slots.size ≤ limit :=
  Session.size_run_le
    (Dialect.of_mem_actionsOf (d := dialect limit) (Q := fun _ => True)
      (fun kind p _ => asks_keepsBelow limit kind p) fun _ _ _ _ => trivial) hSize

theorem actions_of_selects {limit : Nat} {r : Record} {handle : Nat}
    (hNames : Names .selectObject r handle) :
    ((dialect limit).reading r).actions = [.select handle] := by
  obtain ⟨hKind, hSize, rfl⟩ := hNames
  rw [reading_dialect, reading, hKind]
  show (Reading.ofExcept ((r.payload.need 4).map fun _ =>
    [Action.select (r.payload.u32At 0)])).actions = _
  rw [Bytes.need_eq_ok_iff.2 hSize]
  rfl

/-- A handle of a stock object selects this object, and nothing if there is none, in a table
that does not reach the handle. -/
theorem after_select_stock {s : Session} {limit : Nat} {r : Record} {handle : Nat}
    (hNames : Names .selectObject r handle) (hSize : s.objects.slots.size ≤ handle) :
    (dialect limit).after s [r] = { s with dc := s.dc.select (Object.stock? handle) } := by
  rw [Dialect.after_cons, actions_of_selects hNames, ← s.objects.resolve?_eq_stock? hSize]
  rfl

theorem drawn_select {s : Session} {limit : Nat} {r : Record} {handle : Nat}
    (hNames : Names .selectObject r handle) : (dialect limit).drawn s [r] = [] := by
  have hDraw : s.draw (.select handle) = [] := by
    unfold Session.draw
    dsimp only
    split <;> rfl
  rw [Dialect.drawn, Plotter.drawn_cons, actions_of_selects hNames]
  exact congrArg (· ++ [] ++ []) hDraw

end Emf

namespace Wmf

/-- The record creates an object. -/
def creates (r : Record) : Bool := (described? r).isSome && (reading r).outcome == .done

/-- A record adds one slot at most, and only if it creates an object. -/
theorem size_after_record_le (s : Session) (r : Record) :
    (dialect.after s [r]).objects.slots.size ≤
      s.objects.slots.size + if creates r then 1 else 0 := by
  cases hObject : described? r with
  | some object =>
      by_cases hDone : (reading r).outcome = .done
      · have hCreates : creates r = true := by simp [creates, hObject, hDone]
        rw [dialect.after_cons, actions_of_described hObject hDone, hCreates]
        exact s.objects.size_create_le object
      · have hActions : (dialect.reading r).actions = [] :=
          Dialect.actions_of_not_done (by rwa [reading_dialect])
        rw [dialect.after_cons, hActions]
        exact Nat.le_add_right ..
  | none =>
      refine Nat.le_add_right_of_le (Nat.le_of_eq ?_)
      by_cases hNames : ∃ handle, Names .deleteObject r handle
      · obtain ⟨handle, hNames⟩ := hNames
        rw [after_delete hNames]
        exact s.objects.size_delete handle
      · rw [objects_after_other hObject (not_exists.1 hNames)]

/-- So the table of WMF grows by as many slots as objects are created, at the most. It has no
limit of its own. -/
theorem size_after_le (s : Session) (rs : List Record) :
    (dialect.after s rs).objects.slots.size ≤ s.objects.slots.size + rs.countP creates := by
  induction rs generalizing s with
  | nil => exact Nat.le_refl _
  | cons r rest ih =>
      have hFirst := size_after_record_le s r
      have hRest := ih (dialect.after s [r])
      rw [← dialect.after_append, List.singleton_append] at hRest
      rw [List.countP_cons]
      omega

end Wmf

namespace Plus

/-- EMF+ objects are stored at handles of eight bits. -/
theorem asks_handle_lt (kind : Kind) (f : Flags) (p : Bytes) :
    Reading.Asks (fun action => ∀ handle object, action = .define handle object → handle < 0x100)
      (actions kind f p) := by
  by_cases hKind : kind = .object
  · subst hKind
    simp only [actions, Reading.asks_bind, Reading.asks_pure, List.forall_mem_singleton]
    rintro object - handle _ ⟨⟩
    exact Nat.mod_lt _ (by decide)
  · intro action hMem handle object hDefine
    have hEffect := asks_effect kind f p action hMem
    rw [hDefine] at hEffect
    cases kind with
    | object => exact absurd rfl hKind
    | _ => cases hEffect

/-- A handle of EMF+ is one byte, and the table stays as small as that. -/
theorem size_step_le {s : Session} {action : Action}
    (hHandle : ∀ handle object, action = .define handle object → handle < 0x100)
    (hSize : s.objects.slots.size ≤ 0x100) : (s.step action).objects.slots.size ≤ 0x100 := by
  by_cases hEffect : action.effect = .objects
  · cases action with
    | define handle object =>
        have hSmall := hHandle handle object rfl
        show (s.objects.put handle object).slots.size ≤ 0x100
        rw [Gdi.ObjectTable.size_put]
        omega
    | _ => cases hEffect
  · rwa [Session.objects_step hEffect]

/-- So the table stays as small over any records. -/
theorem size_after_le {s : Session} (hSize : s.objects.slots.size ≤ 0x100) (rs : List Record) :
    (after s rs).objects.slots.size ≤ 0x100 := by
  refine Session.plotter.run_preserves (fun t => t.objects.slots.size ≤ 0x100)
    (fun _ _ hBefore hHandle => size_step_le hHandle hBefore) ?_ hSize
  intro action hMem
  obtain ⟨r, -, hAction⟩ := List.mem_flatMap.1 hMem
  unfold reading at hAction
  split at hAction
  · cases hAction
  · exact asks_handle_lt _ _ _ action hAction

end Plus

namespace Gdi.Object

theorem stock?_cases (handle : Nat) :
    stock? handle = none ∨ (∃ pen, stock? handle = some (.pen pen)) ∨
      ∃ brush, stock? handle = some (.brush brush) := by
  have hKind : ∀ object ∈ stockObjects,
      (∃ pen, object = .pen pen) ∨ ∃ brush, object = .brush brush := by
    simp [stockObjects]
  cases hStock : stock? handle with
  | none => exact .inl rfl
  | some object =>
      unfold stock? at hStock
      split at hStock
      case isFalse => cases hStock
      case isTrue =>
        rcases hKind object (List.mem_of_getElem? hStock) with ⟨pen, rfl⟩ | ⟨brush, rfl⟩
        · exact .inr (.inl ⟨pen, rfl⟩)
        · exact .inr (.inr ⟨brush, rfl⟩)

end Gdi.Object

/-- The limit is a word, since the header counts the handles in one. -/
theorem Header.handleLimit_le {header : Header}
    (hCount : ∀ h, header = .emf h → h.handleCount < 0x10000) : header.handleLimit ≤ 0x10000 := by
  cases header with
  | wmf _ => exact Nat.le_refl _
  | emf h =>
      have hSmall := hCount h rfl
      unfold handleLimit
      dsimp only
      split
      · omega
      · exact Nat.le_refl _

namespace Picture

/-- How many slots the table of objects has behind the records of a picture. -/
def slots (p : Picture) : Nat :=
  match p.header, p.format with
  | none, _ | some _, .unknown => 0
  | some _, .emfPlus => (Plus.after .initial p.records).objects.slots.size
  | some header, format =>
    ((format.dialect header).after (.initial header.initialMap) p.records).objects.slots.size

/-- Behind every part of the records an EMF table is within the limit on handles, an EMF+ table
has at most 256 slots, and a WMF table has at most one slot for each record that creates an
object. So no table of a header with a handle count of 16 bits reaches the stock objects: a record
that selects one of their handles takes up the pen or the brush of this handle and changes nothing
else, or nothing at all if there is no such object. -/
theorem slots_le_and_select_stock (header : Header) (rs : List Record)
    (error : Option HeaderError)
    (hCount : ∀ h, header = .emf h → h.handleCount < 0x10000) :
    (∀ part, part <+: rs →
      slots ⟨.emf, some header, part, error⟩ ≤ header.handleLimit ∧
      slots ⟨.emfPlus, some header, part, error⟩ ≤ 0x100 ∧
      slots ⟨.wmf, some header, part, error⟩ ≤ part.countP Wmf.creates ∧
      slots ⟨.placeableWmf, some header, part, error⟩ ≤ part.countP Wmf.creates) ∧
    ∀ part r behind handle, rs = part ++ r :: behind → Emf.Names .selectObject r handle →
      Object.stockBase ≤ handle →
      let dialect := Emf.dialect header.handleLimit
      let s := dialect.after (.initial header.initialMap) part
      dialect.drawn s [r] = [] ∧
      ((Object.stock? handle = none ∧ dialect.after s [r] = s) ∨
        (∃ pen, Object.stock? handle = some (.pen pen) ∧
          dialect.after s [r] = { s with dc := { s.dc with pen } }) ∨
        ∃ brush, Object.stock? handle = some (.brush brush) ∧
          dialect.after s [r] = { s with dc := { s.dc with brush } }) := by
  have hEmpty : ∀ limit, (Session.initial header.initialMap).objects.slots.size ≤ limit :=
    fun limit => Nat.zero_le limit
  constructor
  · intro part _
    have hWmf := Wmf.size_after_le (.initial header.initialMap) part
    rw [Nat.eq_zero_of_le_zero (hEmpty 0), Nat.zero_add] at hWmf
    exact ⟨Emf.size_after_le (hEmpty _) part, Plus.size_after_le (Nat.zero_le _) part, hWmf, hWmf⟩
  · intro part r behind handle _ hNames hStock dialect s
    have hSize : s.objects.slots.size ≤ handle :=
      calc s.objects.slots.size
        _ ≤ header.handleLimit := Emf.size_after_le (hEmpty _) part
        _ ≤ 0x10000 := Header.handleLimit_le hCount
        _ ≤ Object.stockBase := by decide
        _ ≤ handle := hStock
    have hAfter : dialect.after s [r] = { s with dc := s.dc.select (Object.stock? handle) } :=
      Emf.after_select_stock hNames hSize
    refine ⟨Emf.drawn_select hNames, ?_⟩
    rw [hAfter]
    rcases Object.stock?_cases handle with hNone | ⟨pen, hPen⟩ | ⟨brush, hBrush⟩
    · exact .inl ⟨hNone, by rw [hNone]; rfl⟩
    · exact .inr (.inl ⟨pen, hPen, by rw [hPen]; rfl⟩)
    · exact .inr (.inr ⟨brush, hBrush, by rw [hBrush]; rfl⟩)

/-- With three handles, a red pen at the last of them fills the table, and a pen at the handle of
the black stock pen is refused. The stock pen is selected all the same. -/
theorem slots_le_and_select_stock_blackPen :
    let header : Header := .emf { Emf.Header.read #[] with handleCount := 3 }
    let redPen : Bytes := #[0, 0, 0, 0, 1, 0, 0, 0, 0, 0, 0, 0, 0xFF, 0, 0, 0]
    let part : List Record :=
      [⟨38, 28, 0, 88, #[2, 0, 0, 0] ++ redPen⟩, ⟨38, 28, 0, 116, #[7, 0, 0, 0x80] ++ redPen⟩]
    let select : Record := ⟨37, 12, 0, 144, #[7, 0, 0, 0x80]⟩
    let dialect := Emf.dialect header.handleLimit
    let s := dialect.after (.initial header.initialMap) part
    (∀ h, header = .emf h → h.handleCount < 0x10000) ∧
      Emf.Names .selectObject select 0x80000007 ∧
      slots ⟨.emf, some header, part, none⟩ ≤ 3 ∧
      dialect.after s [select] = { s with dc := { s.dc with pen := ⟨0, 1, .black⟩ } } := by
  intro header redPen part select dialect s
  have hCount : ∀ h, header = .emf h → h.handleCount < 0x10000 := by
    intro h hHeader
    rw [← Header.emf.inj hHeader]
    decide
  have hBlack : Object.stock? 0x80000007 = some (.pen ⟨0, 1, .black⟩) := by
    rw [Object.stock?, if_pos (by decide)]
    rfl
  have hNames : Emf.Names .selectObject select 0x80000007 := ⟨rfl, by decide, by decide⟩
  obtain ⟨hSlots, hSelect⟩ := slots_le_and_select_stock header (part ++ [select]) none hCount
  refine ⟨hCount, hNames, (hSlots part (List.prefix_append ..)).1, ?_⟩
  rcases (hSelect part select [] 0x80000007 rfl hNames (by decide)).2 with
    ⟨hNone, -⟩ | ⟨pen, hPen, hAfter⟩ | ⟨brush, hBrush, -⟩
  · exact absurd (hBlack.symm.trans hNone) (by simp)
  · rw [hAfter, ← Object.pen.inj (Option.some.inj (hBlack.symm.trans hPen))]
  · exact absurd (hBlack.symm.trans hBrush) (by simp)

end Picture

end Metafile
