import Metafile.Gdi.Session

/-! Hatches are kept with their brushes and never drawn. A session in which every hatch is
wiped out goes through the same steps and draws the same. -/

namespace Metafile.Gdi

def Brush.unhatched (b : Brush) : Brush := { b with hatch := 0 }

def Object.unhatched : Object → Object
  | .brush b => .brush b.unhatched
  | object => object

theorem Object.map_unhatched_stock? (handle : Nat) :
    (stock? handle).map unhatched = stock? handle := by
  have hAll : stockObjects.map unhatched = stockObjects := rfl
  unfold stock?
  split
  · rw [← List.getElem?_map, hAll]
  · rfl

def DeviceContext.unhatched (dc : DeviceContext) : DeviceContext :=
  { dc with brush := dc.brush.unhatched }

def SavedContext.unhatched (c : SavedContext) : SavedContext := { c with dc := c.dc.unhatched }

def Action.unhatched : Action → Action
  | .create object => .create object.unhatched
  | .put handle object => .put handle object.unhatched
  | action => action

namespace ObjectTable

def unhatched (t : ObjectTable) : ObjectTable := ⟨t.slots.map (Option.map Object.unhatched)⟩

variable (t : ObjectTable) (handle : Nat) (object : Object)

/-- In a table without hatches the object at a handle is the same as before, without its hatch. -/
theorem select?_unhatched :
    t.unhatched.select? handle = (t.select? handle).map Object.unhatched := by
  unfold select? unhatched
  rw [Array.getElem?_map]
  cases t.slots[handle]? <;> rfl

/-- Stock objects have no hatch, so that this holds for every handle that can be selected. -/
theorem resolve?_unhatched :
    t.unhatched.resolve? handle = (t.resolve? handle).map Object.unhatched := by
  unfold resolve?
  rw [select?_unhatched]
  cases t.select? handle with
  | none => exact (Object.map_unhatched_stock? handle).symm
  | some found => rfl

/-- Wiping out hatches leaves free slots free and taken ones taken. -/
theorem nextHandle_unhatched : t.unhatched.nextHandle = t.nextHandle := by
  have hEmpty : Option.isNone ∘ Option.map Object.unhatched = Option.isNone := by
    funext slot
    cases slot <;> rfl
  unfold nextHandle unhatched
  rw [Array.findIdx?_map, Array.size_map, hEmpty]

/-- An object may lose its hatch before or after it is stored. -/
theorem put_unhatched :
    (t.put handle object).unhatched = t.unhatched.put handle object.unhatched := by
  unfold put unhatched
  rw [Array.size_map]
  split
  · simp
  · simp

/-- The next handle is the same, and so an object is created where it would have been. -/
theorem create_unhatched : (t.create object).unhatched = t.unhatched.create object.unhatched := by
  rw [create, create, put_unhatched, nextHandle_unhatched]

theorem delete_unhatched : (t.delete handle).unhatched = t.unhatched.delete handle := by
  simp [delete, unhatched]

end ObjectTable

namespace DeviceContext

/-- No attribute of a context has anything to do with the brush. -/
theorem set_unhatched (dc : DeviceContext) (value : Attribute) :
    (dc.set value).unhatched = dc.unhatched.set value := by
  cases value <;> rfl

/-- A brush that is selected brings its hatch along and nothing else of it changes. -/
theorem select_unhatched (dc : DeviceContext) (object : Option Object) :
    (dc.select object).unhatched = dc.unhatched.select (object.map Object.unhatched) := by
  cases object with
  | none => rfl
  | some object => cases object <;> rfl

end DeviceContext

namespace Session

def unhatched (s : Session) : Session :=
  { s with
    dc := s.dc.unhatched
    objects := s.objects.unhatched
    saved := s.saved.map SavedContext.unhatched }

variable (s : Session)

/-- Lines from the current position do not use the brush. -/
theorem continueTo_unhatched (points : List (Point Float)) :
    (s.continueTo points).unhatched = s.unhatched.continueTo points := by
  unfold continueTo
  cases points.getLast? <;> rfl

/-- A context that is brought back has lost its hatch as the present one has. -/
theorem restore_unhatched (level : Int) :
    (s.restore level).unhatched = s.unhatched.restore level := by
  have hLength : s.unhatched.saved.length = s.saved.length := List.length_map ..
  unfold restore
  rw [hLength]
  cases depthAfterRestore? s.saved.length level with
  | none => rfl
  | some depth =>
      have hDrop : s.unhatched.saved.drop (s.saved.length - depth - 1) =
          (s.saved.drop (s.saved.length - depth - 1)).map SavedContext.unhatched :=
        List.map_drop.symm
      simp only [hDrop]
      cases s.saved.drop (s.saved.length - depth - 1) <;> rfl

/-- Every action leads from a session without hatches to one without hatches, which is the one
that it led to before with the hatches wiped out. There is a case for each action, and none of
them looks at a hatch. -/
theorem step_unhatched (action : Action) :
    (s.step action).unhatched = s.unhatched.step action.unhatched := by
  cases action with
  | setAttribute value => simp only [step, unhatched, Action.unhatched, DeviceContext.set_unhatched]
  | create object => simp only [step, unhatched, Action.unhatched, ObjectTable.create_unhatched]
  | put handle object => simp only [step, unhatched, Action.unhatched, ObjectTable.put_unhatched]
  | delete handle => simp only [step, unhatched, Action.unhatched, ObjectTable.delete_unhatched]
  | select handle =>
      simp only [step, unhatched, Action.unhatched, DeviceContext.select_unhatched,
        ObjectTable.resolve?_unhatched]
  | lineTo point => exact s.continueTo_unhatched [point]
  | polylineTo points => exact s.continueTo_unhatched points
  | bezierTo controls => exact s.continueTo_unhatched _
  | polyline points | polygon points => cases points <;> rfl
  | restoreContext level => exact s.restore_unhatched level
  | _ => rfl

/-- And it draws the same, since of a brush only its style and its colour are used. -/
theorem draw_unhatched (action : Action) : s.unhatched.draw action.unhatched = s.draw action := by
  cases action with
  | restoreContext level => simp only [draw, Action.unhatched, unhatched, List.length_map]
  | _ => rfl

/-- So actions in any number draw the same with and without hatches, by induction on them. -/
theorem calls_unhatched (actions : List Action) :
    plotter.calls s.unhatched (actions.map Action.unhatched) = plotter.calls s actions := by
  induction actions generalizing s with
  | nil => rfl
  | cons action rest ih =>
      show s.unhatched.draw action.unhatched ++
        plotter.calls (s.unhatched.step action.unhatched) (rest.map Action.unhatched) = _
      rw [draw_unhatched, ← step_unhatched, ih]
      rfl

/-- Actions that differ in hatches only are drawn alike. -/
theorem calls_congr_unhatched {first second : List Action}
    (hSame : first.map Action.unhatched = second.map Action.unhatched) :
    plotter.calls s first = plotter.calls s second := by
  rw [← calls_unhatched, hSame, calls_unhatched]

end Session

end Metafile.Gdi
