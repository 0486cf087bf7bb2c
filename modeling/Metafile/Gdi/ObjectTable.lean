import Metafile.Gdi.Object

/-! Tables of created objects. A handle is the index of a slot and never moves;
an object that is deleted leaves its slot empty. -/

namespace Metafile.Gdi

structure ObjectTable where
  slots : Array (Option Object)

namespace ObjectTable

def empty : ObjectTable := ⟨#[]⟩

/-- The created object at a handle. -/
def select? (t : ObjectTable) (handle : Nat) : Option Object := t.slots[handle]?.join

/-- The created object at a handle, or else the stock object that it names. -/
def resolve? (t : ObjectTable) (handle : Nat) : Option Object :=
  t.select? handle <|> Object.stock? handle

/-- The handle for the next object: the lowest empty slot, or a new one. -/
def nextHandle (t : ObjectTable) : Nat := (t.slots.findIdx? Option.isNone).getD t.slots.size

/-- Stores an object at a handle. The table grows by empty slots to reach it. -/
def put (t : ObjectTable) (handle : Nat) (object : Object) : ObjectTable :=
  if handle < t.slots.size then ⟨t.slots.setIfInBounds handle (some object)⟩
  else ⟨(t.slots ++ Array.replicate (handle - t.slots.size) none).push (some object)⟩

/-- Stores an object at the next handle. -/
def create (t : ObjectTable) (object : Object) : ObjectTable := t.put t.nextHandle object

def createPen (t : ObjectTable) (style : Nat) (width : Float) (color : Color) : ObjectTable :=
  t.create (.pen ⟨style, width, color⟩)

/-- A brush that is created without a record has no hatch. -/
def createBrush (t : ObjectTable) (style : Nat) (color : Color) : ObjectTable :=
  t.create (.brush ⟨style, color, 0⟩)

def delete (t : ObjectTable) (handle : Nat) : ObjectTable :=
  ⟨t.slots.setIfInBounds handle none⟩

def clear (_ : ObjectTable) : ObjectTable := empty

/-- What can be done to a table. -/
inductive Operation where
  | create (object : Object)
  | createPen (style : Nat) (width : Float) (color : Color)
  | createBrush (style : Nat) (color : Color)
  | put (handle : Nat) (object : Object)
  | delete (handle : Nat)
  | clear
deriving Repr

def step (t : ObjectTable) : Operation → ObjectTable
  | .create object => t.create object
  | .createPen style width color => t.createPen style width color
  | .createBrush style color => t.createBrush style color
  | .put handle object => t.put handle object
  | .delete handle => t.delete handle
  | .clear => t.clear

/-- The handle that an operation gives to a new object. -/
def given? (t : ObjectTable) : Operation → Option Nat
  | .create _ | .createPen .. | .createBrush .. => some t.nextHandle
  | .put .. | .delete _ | .clear => none

/-- The table behind operations on a new one. -/
def ofOperations (ops : List Operation) : ObjectTable := ops.foldl step empty

@[simp]
theorem select?_empty (handle : Nat) : empty.select? handle = none := by
  simp [select?, empty]

/-- A stored object is found at its handle, and no other handle is affected. -/
theorem select?_put (t : ObjectTable) (handle other : Nat) (object : Object) :
    (t.put handle object).select? other =
      if other = handle then some object else t.select? other := by
  unfold put select?
  split
  case isTrue hInside => grind
  case isFalse hOutside => grind

/-- A deleted object is gone, and no other handle is affected. -/
theorem select?_delete (t : ObjectTable) (handle other : Nat) :
    (t.delete handle).select? other = if other = handle then none else t.select? other := by
  unfold delete select?
  grind

/-- A table grows just as far as the handle that it is told to store at, and slots that are there
already are kept. -/
theorem size_put (t : ObjectTable) (handle : Nat) (object : Object) :
    (t.put handle object).slots.size = max t.slots.size (handle + 1) := by
  unfold put
  split <;> simp <;> omega

end ObjectTable

end Metafile.Gdi
