import Mathlib.Algebra.Group.Int.Defs
import Mathlib.Algebra.Group.Nat.Defs
import Metafile.Bytes

/-! Arithmetic of a machine with 64-bit words. An operation whose operands have no result in a
word has no value here, and what needs the value has none either. -/

namespace Metafile.Machine

/-- The number, if it fits an unsigned word. -/
def unsigned (value : Nat) : Option Nat := if value < 2 ^ 64 then some value else none

/-- The number, if it fits a signed word. -/
def signed (value : Int) : Option Int :=
  if -(2 ^ 63) ≤ value ∧ value < 2 ^ 63 then some value else none

/-- An operation with a value hands it on. -/
theorem bind_of_eq_some {α β : Type} {operation : Option α} {value : α}
    (hValue : operation = some value) (rest : α → Option β) :
    operation >>= rest = rest value := by
  subst hValue
  rfl

namespace Word

def add (a b : Nat) : Option Nat := unsigned (a + b)

def sub (a b : Nat) : Option Nat := if b ≤ a then some (a - b) else none

def mul (a b : Nat) : Option Nat := unsigned (a * b)

/-- The sum, or the greatest word if that is less. -/
def addSaturating (a b : Nat) : Nat := min (a + b) (2 ^ 64 - 1)

/-- The product, or the greatest word if that is less. -/
def mulSaturating (a b : Nat) : Nat := min (a * b) (2 ^ 64 - 1)

/-- The sum of a list, from its front on. -/
def sum (values : List Nat) : Option Nat := values.foldlM add 0

variable {a b : Nat}

theorem add_eq (hFits : a + b < 2 ^ 64) : add a b = some (a + b) := if_pos hFits

theorem sub_eq (hFits : b ≤ a) : sub a b = some (a - b) := if_pos hFits

theorem mul_eq (hFits : a * b < 2 ^ 64) : mul a b = some (a * b) := if_pos hFits

theorem mulSaturating_eq (hFits : a * b < 2 ^ 64) : mulSaturating a b = a * b :=
  Nat.min_eq_left (by omega)

end Word

namespace Signed

def add (a b : Int) : Option Int := signed (a + b)

def sub (a b : Int) : Option Int := signed (a - b)

def mul (a b : Int) : Option Int := signed (a * b)

/-- The quotient rounded toward zero. Only zero and, for the least number, minus one are no
divisors. -/
def div (a b : Int) : Option Int := if b = 0 then none else signed (a.tdiv b)

def abs (a : Int) : Option Int := signed a.natAbs

theorem signed_eq {value : Int} (hLow : -(2 ^ 63) ≤ value) (hHigh : value < 2 ^ 63) :
    signed value = some value := if_pos ⟨hLow, hHigh⟩

end Signed

/-- The number is one of a signed half word. -/
def IsHalf (value : Int) : Prop := -(2 ^ 31) ≤ value ∧ value < 2 ^ 31

instance (value : Int) : Decidable (IsHalf value) :=
  inferInstanceAs (Decidable (-(2 ^ 31) ≤ value ∧ value < 2 ^ 31))

section

variable {a b : Int}

/-- No two half words are further apart than there are half words. -/
theorem IsHalf.natAbs_sub_lt (hFirst : IsHalf a) (hSecond : IsHalf b) :
    (a - b).natAbs < 2 ^ 32 := by
  unfold IsHalf at hFirst hSecond
  omega

/-- Half words are subtracted without passing a signed word. -/
theorem IsHalf.sub_eq (hFirst : IsHalf a) (hSecond : IsHalf b) :
    Signed.sub a b = some (a - b) := by
  have hApart := hFirst.natAbs_sub_lt hSecond
  exact Signed.signed_eq (by omega) (by omega)

end

/-- The bytes from `start` up to `stop`, which must lie in this order inside the buffer. -/
def slice (data : Bytes) (start stop : Nat) : Option Bytes :=
  if start ≤ stop ∧ stop ≤ data.size then some (data.extract start stop) else none

/-- A part of a buffer can be cut out if its bounds are in order and inside. -/
theorem slice_eq {data : Bytes} {start stop : Nat} (hOrder : start ≤ stop)
    (hStop : stop ≤ data.size) : slice data start stop = some (data.extract start stop) :=
  if_pos ⟨hOrder, hStop⟩

/-- The values from `start` on, which may not lie behind the end. -/
def suffix {α : Type} (values : List α) (start : Nat) : Option (List α) :=
  if start ≤ values.length then some (values.drop start) else none

theorem suffix_eq {α : Type} {values : List α} {start : Nat} (hStart : start ≤ values.length) :
    suffix values start = some (values.drop start) := if_pos hStart

/-- The whole chunks of `size` values, one behind the other. Values that are left over belong
to no chunk. -/
def chunks {α : Type} (size : Nat) (values : List α) : List (List α) :=
  if 0 < size ∧ size ≤ values.length then values.take size :: chunks size (values.drop size)
  else []
termination_by values.length
decreasing_by
  rw [List.length_drop]
  omega

end Metafile.Machine
