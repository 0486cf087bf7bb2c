import Mathlib.Order.Bounds.Defs
import Metafile.Gdi.ObjectTable

/-! What is found in a table of objects. A created object is stored at the least handle
at which nothing is found, and handles below those of the stock objects name only
what was created. -/

namespace Metafile.Gdi.ObjectTable

variable (t : ObjectTable)

/-- At a handle there is no object if its slot is free or the table has no such slot. -/
theorem select?_eq_none_iff {handle : Nat} :
    t.select? handle = none ↔
      ∀ hInside : handle < t.slots.size, (t.slots[handle]).isNone = true := by
  unfold select?
  by_cases hInside : handle < t.slots.size <;> simp [hInside]

/-- A new object gets the lowest handle without an object, as the format demands. -/
theorem isLeast_nextHandle : IsLeast {handle | t.select? handle = none} t.nextHandle := by
  unfold nextHandle
  cases hFind : t.slots.findIdx? Option.isNone with
  | none =>
      rw [Array.findIdx?_eq_none_iff] at hFind
      refine ⟨t.select?_eq_none_iff.2 fun hInside => absurd hInside (Nat.lt_irrefl _), ?_⟩
      intro handle hNone
      refine Nat.le_of_not_lt fun hInside => ?_
      have hSlot := hFind t.slots[handle] (Array.getElem_mem hInside)
      rw [t.select?_eq_none_iff.1 hNone hInside] at hSlot
      cases hSlot
  | some empty =>
      obtain ⟨hInside, hEmpty, hBefore⟩ := Array.findIdx?_eq_some_iff_getElem.1 hFind
      refine ⟨t.select?_eq_none_iff.2 fun _ => hEmpty, ?_⟩
      intro handle hNone
      refine Nat.le_of_not_lt fun hLess => ?_
      exact hBefore handle hLess (t.select?_eq_none_iff.1 hNone (Nat.lt_trans hLess hInside))

/-- It is at most the next one behind the table, so that a table grows by one slot at a time. -/
theorem nextHandle_le : t.nextHandle ≤ t.slots.size := by
  refine t.isLeast_nextHandle.2 ?_
  show t.select? t.slots.size = none
  simp [select?]

/-- A created object takes at most one more slot. -/
theorem size_create_le (object : Object) : (t.create object).slots.size ≤ t.slots.size + 1 := by
  have hNext := t.nextHandle_le
  rw [create, size_put]
  omega

/-- A table never loses a slot when an object is deleted. -/
@[simp]
theorem size_delete (handle : Nat) : (t.delete handle).slots.size = t.slots.size :=
  Array.size_setIfInBounds

/-- Below the handles of stock objects only the table is looked up. -/
theorem resolve?_eq_select? {handle : Nat} (hHandle : handle < Object.stockBase) :
    t.resolve? handle = t.select? handle := by
  simp [resolve?, Object.stock?, Nat.not_le.2 hHandle]

/-- Handles of stock objects that a table does not reach name the stock objects. -/
theorem resolve?_eq_stock? {handle : Nat} (hHandle : t.slots.size ≤ handle) :
    t.resolve? handle = Object.stock? handle := by
  simp [resolve?, select?, hHandle]

end Metafile.Gdi.ObjectTable
