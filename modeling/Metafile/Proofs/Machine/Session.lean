import Metafile.Gdi.Session
import Metafile.Proofs.Gdi.Nesting
import Metafile.Proofs.Machine.Reading
import Metafile.Proofs.Machine.Stream

/-! Carrying out actions on the machine. Extents are scaled and levels counted in signed words,
and tables and lists of points are reached into by their places. -/

namespace Metafile

open Machine (IsHalf)

theorem isHalf_saturate (value : Int) : IsHalf (saturate value) := by
  unfold IsHalf saturate
  omega

structure Size.Fits (s : Size Int) : Prop where
  width : IsHalf s.width
  height : IsHalf s.height

structure Ratio.Fits (r : Ratio) : Prop where
  numerator : IsHalf r.numerator
  denominator : IsHalf r.denominator

/-- Scaling keeps lengths half words, since quotients are saturated and a denominator of zero
changes nothing. -/
theorem Ratio.isHalf_scale (r : Ratio) {length : Int} (hLength : IsHalf length) :
    IsHalf (r.scale length) := by
  unfold scale
  split
  case isTrue => exact hLength
  case isFalse => exact isHalf_saturate _

namespace CoordinateMap

/-- The extents, which are what is computed with, are half words. -/
structure Fits (m : CoordinateMap) : Prop where
  window : m.windowExtent.Fits
  viewport : m.viewportExtent.Fits

def Change.Fits : Change → Prop
  | .windowExtent extent | .viewportExtent extent => extent.Fits
  | .scaleWindow horizontal vertical | .scaleViewport horizontal vertical =>
    horizontal.Fits ∧ vertical.Fits
  | _ => True

theorem fits_initial : initial.Fits := ⟨⟨by decide, by decide⟩, by decide, by decide⟩

/-- A change of the map with numbers that fit leaves a map that fits. -/
theorem Fits.change {m : CoordinateMap} (hFits : m.Fits) {c : Change} (hChange : c.Fits) :
    (m.change c).Fits := by
  cases c with
  | windowExtent extent => exact ⟨hChange, hFits.viewport⟩
  | viewportExtent extent => exact ⟨hFits.window, hChange⟩
  | scaleWindow horizontal vertical =>
      exact ⟨⟨horizontal.isHalf_scale hFits.window.width,
        vertical.isHalf_scale hFits.window.height⟩, hFits.viewport⟩
  | scaleViewport horizontal vertical =>
      exact ⟨hFits.window, horizontal.isHalf_scale hFits.viewport.width,
        vertical.isHalf_scale hFits.viewport.height⟩
  | _ => exact ⟨hFits.window, hFits.viewport⟩

end CoordinateMap

namespace Gdi

/-- The numbers of an action that are computed with have the size of their fields. -/
def Action.Fits : Action → Prop
  | .remap change => change.Fits
  | .put handle _ => handle < 2 ^ 32
  | .polylineTo points => points.length < 2 ^ 32
  | .bezierTo controls => controls.length < 2 ^ 32
  | .restoreContext level => IsHalf level
  | _ => True

namespace Session

/-- The mapping fits, and so do those that are put aside. -/
structure Fits (s : Session) : Prop where
  map : s.map.Fits
  saved : ∀ context ∈ s.saved, context.map.Fits

theorem map_continueTo (s : Session) (points : List (Point Float)) :
    (s.continueTo points).map = s.map := by
  unfold continueTo
  split <;> rfl

variable {s : Session} {action : Action}

/-- Only the mapping itself is changed, or exchanged for one that was put aside. -/
theorem map_step (hEffect : action.effect ≠ .context) (hMapping : action.effect ≠ .mapping) :
    (s.step action).map = s.map := by
  cases action with
  | remap _ => exact absurd rfl hMapping
  | saveContext | restoreContext _ => exact absurd rfl hEffect
  | lineTo _ | polylineTo _ | bezierTo _ => exact map_continueTo ..
  | polyline points | polygon points => cases points <;> rfl
  | _ => rfl

/-- The numbers of a session keep fitting, since only actions that change the map change them,
and restored maps were those of the session before. -/
theorem Fits.step (hFits : s.Fits) (hAction : action.Fits) : (s.step action).Fits := by
  by_cases hEffect : action.effect = .context
  · cases action with
    | saveContext => exact ⟨hFits.map, List.forall_mem_cons.2 ⟨hFits.map, hFits.saved⟩⟩
    | restoreContext level =>
        rcases s.restore_cases level with hSame | ⟨newer, context, older, hSaved, hRestored⟩
        · rwa [Session.step, hSame]
        · have hAside := hFits.saved
          rw [hSaved] at hAside
          rw [Session.step, hRestored]
          exact ⟨hAside context (by simp), fun other hMem => hAside other (by simp [hMem])⟩
    | _ => cases hEffect
  · refine ⟨?_, by rw [saved_step hEffect]; exact hFits.saved⟩
    cases action with
    | remap change => exact hFits.map.change hAction
    | _ =>
        rw [map_step hEffect (by simp [Action.effect])]
        exact hFits.map

/-- An action puts at most one context aside, so that there are never more saved contexts than
actions. -/
theorem length_saved_step_le (s : Session) (action : Action) :
    (s.step action).saved.length ≤ s.saved.length + 1 := by
  by_cases hEffect : action.effect = .context
  · cases action with
    | saveContext => exact Nat.le_refl _
    | restoreContext level =>
        rcases s.restore_cases level with hSame | ⟨newer, context, older, hSaved, hRestored⟩
        · rw [Session.step, hSame]
          exact Nat.le_succ _
        · rw [Session.step, hRestored, hSaved, List.length_append, List.length_cons]
          dsimp only
          omega
    | _ => cases hEffect
  · rw [saved_step hEffect]
    exact Nat.le_succ _

end Session

end Gdi

/-- A chain of curves has sixteen points for each of its control points at the most, so that
lists of points stay far below the greatest word. -/
theorem Bezier.length_chain_le (start : Point Float) (controls : List (Point Float)) :
    (chain start controls).length ≤ 16 * controls.length := by
  induction start, controls using chain.induct with
  | case1 start p1 p2 p3 rest ih =>
      have hSegment : (segment start p1 p2 p3).length = 16 := by
        rw [segment, List.length_map, List.length_range, steps]
      rw [chain, List.length_append, hSegment]
      simp only [List.length_cons]
      omega
  | case2 controls start hShort =>
      rw [chain]
      · exact Nat.zero_le _
      · exact hShort

namespace Machine

open Word

/-- A zero denominator is told apart before it divides. -/
def scale (r : Ratio) (length : Int) : Option Int := do
  if r.denominator = 0 then return length
  return saturate (← Signed.div (← Signed.mul length r.numerator) r.denominator)

def stretch (s : Size Int) (horizontal vertical : Ratio) : Option (Size Int) := do
  return ⟨← scale horizontal s.width, ← scale vertical s.height⟩

/-- Origins are moved by saturating sums, which always have a value. -/
def change (m : CoordinateMap) : CoordinateMap.Change → Option CoordinateMap
  | .scaleWindow horizontal vertical => do
    return { m with windowExtent := ← stretch m.windowExtent horizontal vertical }
  | .scaleViewport horizontal vertical => do
    return { m with viewportExtent := ← stretch m.viewportExtent horizontal vertical }
  | c => some (m.change c)

/-- The product of two half words fits a word, and so does every quotient of it. -/
theorem scale_eq {r : Ratio} {length : Int} (hRatio : r.Fits) (hLength : IsHalf length) :
    scale r length = some (r.scale length) := by
  unfold scale Ratio.scale
  by_cases hZero : r.denominator = 0
  · rw [if_pos hZero, if_pos hZero]
    rfl
  have hProduct : (length * r.numerator).natAbs ≤ 2 ^ 31 * 2 ^ 31 := by
    have hNumerator := hRatio.numerator
    unfold IsHalf at hLength hNumerator
    rw [Int.natAbs_mul]
    exact Nat.mul_le_mul (by omega) (by omega)
  have hQuotient : ((length * r.numerator).tdiv r.denominator).natAbs ≤
      (length * r.numerator).natAbs := Int.natAbs_tdiv_le_natAbs ..
  have hMul : Signed.mul length r.numerator = some (length * r.numerator) :=
    Signed.signed_eq (by omega) (by omega)
  have hDiv : Signed.div (length * r.numerator) r.denominator =
      some ((length * r.numerator).tdiv r.denominator) := by
    rw [Signed.div, if_neg hZero]
    exact Signed.signed_eq (by omega) (by omega)
  rw [if_neg hZero, if_neg hZero, hMul]
  simp only [Option.bind_eq_bind, Option.bind_some, hDiv]
  rfl

/-- Scaling an extent multiplies two half words, whose product is a signed word, and divides by
one that is not zero. -/
theorem stretch_eq {s : Size Int} (hSize : s.Fits) {horizontal vertical : Ratio}
    (hHorizontal : horizontal.Fits) (hVertical : vertical.Fits) :
    stretch s horizontal vertical =
      some ⟨horizontal.scale s.width, vertical.scale s.height⟩ := by
  rw [stretch, scale_eq hHorizontal hSize.width, scale_eq hVertical hSize.height]
  rfl

/-- So every change of the map can be computed. Origins are moved by sums that saturate. -/
theorem change_eq {m : CoordinateMap} (hMap : m.Fits) {c : CoordinateMap.Change}
    (hChange : c.Fits) : change m c = some (m.change c) := by
  cases c with
  | scaleWindow horizontal vertical =>
      rw [change, stretch_eq hMap.window hChange.1 hChange.2]
      rfl
  | scaleViewport horizontal vertical =>
      rw [change, stretch_eq hMap.viewport hChange.1 hChange.2]
      rfl
  | _ => rfl

open Gdi

namespace ObjectTable

/-- Writes into a slot that is there. -/
def store (slots : Array (Option Object)) (handle : Nat) (object : Object) : Option ObjectTable :=
  if handle < slots.size then some ⟨slots.setIfInBounds handle (some object)⟩ else none

def put (t : ObjectTable) (handle : Nat) (object : Object) : Option ObjectTable := do
  if handle < t.slots.size then store t.slots handle object
  else
    let count ← add handle 1
    store (t.slots ++ Array.replicate (count - t.slots.size) none) handle object

/-- The handle of a new object with the table that has it. -/
def create (t : ObjectTable) (object : Object) : Option (Nat × ObjectTable) := do
  match t.slots.findIdx? Option.isNone with
  | some handle => return (handle, ← store t.slots handle object)
  | none =>
    let slots := t.slots.push (some object)
    return (← sub slots.size 1, ⟨slots⟩)

variable {t : ObjectTable} {object : Object}

/-- A table grows to the slot of a handle, whose number is a double word. -/
theorem put_eq {handle : Nat} (hHandle : handle < 2 ^ 32) :
    put t handle object = some (t.put handle object) := by
  unfold put Gdi.ObjectTable.put
  split
  case isTrue hInside => exact if_pos hInside
  case isFalse hOutside =>
    have hGrown : (t.slots ++ Array.replicate (handle + 1 - t.slots.size) none).size =
        handle + 1 := by
      rw [Array.size_append, Array.size_replicate]
      omega
    have hCount : handle + 1 - t.slots.size = handle - t.slots.size + 1 := by omega
    rw [add_eq (by omega)]
    show store _ handle object = _
    rw [store, if_pos (by omega)]
    rw [hCount, Array.replicate_succ, Array.append_push]
    congr 2
    grind

theorem create_eq : create t object = some (t.nextHandle, t.create object) := by
  unfold create Gdi.ObjectTable.create Gdi.ObjectTable.nextHandle
  cases hFind : t.slots.findIdx? Option.isNone with
  | some handle =>
      obtain ⟨hInside, -⟩ := Array.findIdx?_eq_some_iff_getElem.1 hFind
      have hStore : store t.slots handle object = some (t.put handle object) := by
        rw [store, Gdi.ObjectTable.put, if_pos hInside, if_pos hInside]
      dsimp only
      rw [hStore]
      rfl
  | none =>
      have hPut : t.put t.slots.size object = ⟨t.slots.push (some object)⟩ := by
        simp [Gdi.ObjectTable.put]
      dsimp only [Option.getD_none]
      rw [hPut, Array.size_push, sub_eq (Nat.succ_pos _)]
      rfl

end ObjectTable

namespace Session

def continueTo (s : Session) (points : List (Point Float)) : Option Session := do
  match points.getLast? with
  | none => return s
  | some last =>
    let _ ← add points.length 1
    let mapped := (s.dc.position :: points).map s.place
    let behind ← suffix mapped 1
    return (s.record fun path => path.extend (s.place s.dc.position) behind).moveTo last

/-- The points of a chain of curves behind the current position. -/
def chain (s : Session) (controls : List (Point Float)) : Option (List (Point Float)) := do
  suffix (← Bezier.flatten s.dc.position controls) 1

/-- How many contexts a level leaves, if there are that many. -/
def target (depth level : Int) : Option Int :=
  if level < 0 then Signed.add depth level else Signed.sub level 1

/-- The machine counts saved contexts in unsigned words and levels in signed ones. -/
def depthAfterRestore? (total : Nat) (level : Int) : Option (Option Nat) := do
  let depth ← signed total
  if level = 0 then return none
  let target ← target depth level
  if target < 0 ∨ depth ≤ target then return none
  return some target.toNat

def restore (s : Session) (level : Int) : Option Session := do
  match ← depthAfterRestore? s.saved.length level with
  | none => return s
  | some depth =>
    match s.saved.drop (← sub (← sub s.saved.length depth) 1) with
    | [] => return s
    | context :: older => return { s with dc := context.dc, map := context.map, saved := older }

/-- A polygon is led back to its first point, which is looked up by its place. -/
def closed (s : Session) (points : List (Point Float)) : Option Session := do
  let mapped := points.map s.place
  if mapped.isEmpty then return s
  let first ← mapped[0]?
  return s.record fun path => path.push (mapped ++ [first])

def step (s : Session) : Action → Option Session
  | .remap change => do return { s with map := ← Machine.change s.map change }
  | .create object => do
    let (_, objects) ← ObjectTable.create s.objects object
    return { s with objects }
  | .put handle object => do return { s with objects := ← ObjectTable.put s.objects handle object }
  | .polygon points => closed s points
  | .polylineTo points => continueTo s points
  | .bezierTo controls => do continueTo s (← chain s controls)
  | .restoreContext level => restore s level
  | action => some (s.step action)

def draw (s : Session) : Action → Option (List Call)
  | .bezierTo controls => do return s.draw (.polylineTo (← chain s controls))
  | .restoreContext level => do
    match ← depthAfterRestore? s.saved.length level with
    | none => return []
    | some depth => return List.replicate (← sub s.saved.length depth) .restoreState
  | action => some (s.draw action)

variable {s : Session}

/-- Lines from the current position look at the last point if there is one. -/
theorem continueTo_eq {points : List (Point Float)} (hLength : points.length < 2 ^ 63) :
    continueTo s points = some (s.continueTo points) := by
  unfold continueTo Gdi.Session.continueTo
  cases points.getLast? with
  | none => rfl
  | some last =>
      dsimp only
      rw [add_eq (by omega), suffix_eq (by simp)]
      rfl

theorem chain_eq (controls : List (Point Float)) :
    chain s controls = some (Metafile.Bezier.chain s.dc.position controls) := by
  rw [chain, Bezier.flatten_eq, Option.bind_eq_bind, Option.bind_some,
    suffix_eq (by simp [Metafile.Bezier.flatten])]
  rfl

/-- The depth to restore is a sum or difference of a depth and a level. Both are far from the
greatest signed word. -/
theorem depthAfterRestore?_eq {total : Nat} (hTotal : total < 2 ^ 63) {level : Int}
    (hLevel : IsHalf level) :
    depthAfterRestore? total level = some (Gdi.Session.depthAfterRestore? total level) := by
  unfold IsHalf at hLevel
  have hTarget : target total level = some (if level < 0 then total + level else level - 1) := by
    unfold target
    split
    case isTrue => exact Signed.signed_eq (by omega) (by omega)
    case isFalse => exact Signed.signed_eq (by omega) (by omega)
  unfold depthAfterRestore? Gdi.Session.depthAfterRestore?
  simp only [Signed.signed_eq (show -(2 ^ 63) ≤ (total : Int) by omega) (by omega), hTarget,
    Option.bind_eq_bind, Option.bind_some]
  by_cases hZero : level = 0
  · rw [if_pos hZero, if_pos (.inl hZero)]
    rfl
  · simp only [hZero, if_false, false_or]
    generalize (if level < 0 then (total : Int) + level else level - 1) = left
    split <;> rfl

/-- Restoring takes the contexts above this depth, which is not greater than that of the
session. -/
theorem restore_eq (hSaved : s.saved.length < 2 ^ 63) {level : Int} (hLevel : IsHalf level) :
    restore s level = some (s.restore level) := by
  unfold restore Gdi.Session.restore
  rw [depthAfterRestore?_eq hSaved hLevel, Option.bind_eq_bind, Option.bind_some]
  cases hDepth : Gdi.Session.depthAfterRestore? s.saved.length level with
  | none => rfl
  | some depth =>
      have hLess := Gdi.Session.depthAfterRestore?_lt hDepth
      simp only [sub_eq (show depth ≤ s.saved.length by omega),
        sub_eq (show 1 ≤ s.saved.length - depth by omega), Option.bind_eq_bind, Option.bind_some]
      cases s.saved.drop (s.saved.length - depth - 1) <;> rfl

theorem closed_eq (points : List (Point Float)) :
    closed s points = some (s.step (.polygon points)) := by
  cases points <;> rfl

/-- The machine takes every step that a session takes, if the numbers of the session and of the
action fit. -/
theorem step_eq (hFits : s.Fits) (hSaved : s.saved.length < 2 ^ 63) {action : Action}
    (hAction : action.Fits) : step s action = some (s.step action) := by
  cases action with
  | remap change =>
      rw [step, change_eq hFits.map hAction]
      rfl
  | create object =>
      rw [step, ObjectTable.create_eq]
      rfl
  | put handle object =>
      rw [step, ObjectTable.put_eq hAction]
      rfl
  | polygon points => exact closed_eq points
  | polylineTo points =>
      have hLength : points.length < 2 ^ 32 := hAction
      exact continueTo_eq (by omega)
  | bezierTo controls =>
      have hLength : controls.length < 2 ^ 32 := hAction
      have hChain := Metafile.Bezier.length_chain_le s.dc.position controls
      rw [step, chain_eq]
      exact continueTo_eq (by omega)
  | restoreContext level => exact restore_eq hSaved hAction
  | _ => rfl

/-- And it draws what the session draws, as only restoring has to count. -/
theorem draw_eq (hSaved : s.saved.length < 2 ^ 63) {action : Action} (hAction : action.Fits) :
    draw s action = some (s.draw action) := by
  cases action with
  | bezierTo controls =>
      rw [draw, chain_eq]
      rfl
  | restoreContext level =>
      rw [draw, depthAfterRestore?_eq hSaved hAction, Option.bind_eq_bind, Option.bind_some,
        Gdi.Session.draw]
      cases hDepth : Gdi.Session.depthAfterRestore? s.saved.length level with
      | none => rfl
      | some depth =>
          have hLess := Gdi.Session.depthAfterRestore?_lt hDepth
          dsimp only
          rw [sub_eq (by omega)]
          rfl
  | _ => rfl

end Session

end Machine

end Metafile
