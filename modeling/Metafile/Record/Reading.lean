import Metafile.Fault
import Metafile.Geometry.Point
import Metafile.Record

/-! Reading the payload of a record. What a record asks for depends on the record
alone and is found before anything is done. -/

namespace Metafile

/-- Refuses a payload with fewer bytes than required. -/
def Bytes.need (payload : Bytes) (required : Nat) : Except Fault Unit :=
  if payload.size < required then .error (.payloadTooShort payload.size required) else .ok ()

/-- A check of the size of a payload has no other result than to pass or to fail. -/
@[simp]
theorem Bytes.need_eq_ok_iff {payload : Bytes} {required : Nat} :
    payload.need required = .ok () ↔ required ≤ payload.size := by
  unfold Bytes.need
  split <;> simp <;> omega

/-- What became of a record in a replay. -/
inductive Outcome where
  | done
  /-- The format has no kind with the number of the record. -/
  | unhandled
  | failed (fault : Fault)
deriving Repr, DecidableEq

/-- The actions that a record asks for and what became of it. -/
structure Reading (α : Type) where
  actions : List α
  outcome : Outcome

namespace Reading

variable {α : Type}

def unhandled : Reading α := ⟨[], .unhandled⟩

/-- A record that fails as a whole asks for nothing. -/
def ofExcept : Except Fault (List α) → Reading α
  | .ok actions => ⟨actions, .done⟩
  | .error fault => ⟨[], .failed fault⟩

/-- A record that asks for nothing unless its payload has the required size. -/
def needing (payload : Bytes) (required : Nat) (rest : Reading α) : Reading α :=
  match payload.need required with
  | .ok () => rest
  | .error fault => ⟨[], .failed fault⟩

/-- Actions that are carried out even if the rest of the record fails. -/
def after (first : List α) (rest : Reading α) : Reading α :=
  ⟨first ++ rest.actions, rest.outcome⟩

end Reading

/-- How a value is stored in a fixed number of bytes. -/
structure Layout (α : Type) where
  size : Nat
  read : Bytes → Nat → α

namespace Layout

variable {α : Type}

/-- Values stored one behind the other. -/
def list (l : Layout α) (data : Bytes) (start count : Nat) : List α :=
  (List.range count).map fun i => l.read data (start + l.size * i)

/-- Lists of values stored one behind the other, with the given lengths. -/
def lists (l : Layout α) (data : Bytes) (start : Nat) : List Nat → List (List α)
  | [] => []
  | count :: counts =>
    l.list data start count :: l.lists data (start + l.size * count) counts

/-- The number of values in lists with the given lengths. -/
def total (counts : List Nat) : Nat := counts.foldr (· + ·) 0

/-- As many values are read as are asked for, whether or not there are bytes for them. -/
@[simp]
theorem length_list (l : Layout α) (data : Bytes) (start count : Nat) :
    (l.list data start count).length = count := by
  simp [list]

/-- The first of several values stands where the list starts. -/
theorem list_succ (l : Layout α) (data : Bytes) (start count : Nat) :
    l.list data start (count + 1) = l.read data start :: l.list data (start + l.size) count := by
  have hNext (i : Nat) : start + l.size * (i + 1) = start + l.size + l.size * i := by
    rw [Nat.mul_succ]
    omega
  simp only [list, List.range_succ_eq_map, List.map_cons, List.map_map, Nat.mul_zero,
    Nat.add_zero, Function.comp_def, Nat.succ_eq_add_one, hNext]

@[simp]
theorem length_lists (l : Layout α) (data : Bytes) (start : Nat) (counts : List Nat) :
    (l.lists data start counts).map List.length = counts := by
  induction counts generalizing start with
  | nil => rfl
  | cons count counts ih => simp [lists, ih]

variable [Scalar α]

/-- A point with 16-bit coordinates. -/
def shortPoint : Layout (Point α) where
  size := 4
  read data start := .ofInts ⟨data.i16At start, data.i16At (start + 2)⟩

/-- A point with 32-bit coordinates. -/
def longPoint : Layout (Point α) where
  size := 8
  read data start := .ofInts ⟨data.i32At start, data.i32At (start + 4)⟩

/-- An unsigned 16-bit number. -/
def word : Layout Nat := ⟨2, Bytes.u16At⟩

/-- An unsigned 32-bit number. -/
def dword : Layout Nat := ⟨4, Bytes.u32At⟩

end Layout

end Metafile
