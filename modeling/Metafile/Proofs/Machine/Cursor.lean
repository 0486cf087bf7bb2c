import Mathlib.Data.List.Chain
import Mathlib.Data.Nat.Digits.Defs
import Metafile.Bytes.Cursor
import Metafile.Proofs.Bytes.Bits
import Metafile.Proofs.Machine.Stream

/-! All that can be done with a cursor, one thing behind the other. Whatever was done before, a
number is made of all the bytes of its field or is zero, the cursor stays inside the buffer, and
bytes that are read piece by piece are read once each and in their order. -/

namespace Metafile

/-- The number that bytes are put together to is the one with these digits to the base 256, so
that what is known of digits may be used. -/
theorem littleEndian_eq_ofDigits (bytes : List UInt8) :
    littleEndian bytes = Nat.ofDigits 256 (bytes.map UInt8.toNat) := by
  induction bytes with
  | nil => rfl
  | cons byte rest ih => rw [littleEndian, ih, List.map_cons, Nat.ofDigits_cons]

/-- Reading bits as a signed number is the balanced remainder by the number of bit patterns. -/
theorem signed_eq_bmod {bits value : Nat} (hBits : 0 < bits) (hValue : value < 2 ^ bits) :
    signed bits value = Int.bmod value (2 ^ bits) := by
  have hDouble : 2 ^ bits = 2 * 2 ^ (bits - 1) := by
    rw [← Nat.pow_succ', Nat.succ_eq_add_one, Nat.sub_add_cancel hBits]
  rw [signed, Nat.one_shiftLeft, Nat.one_shiftLeft, Int.bmod_def]
  rw [hDouble] at hValue ⊢
  generalize 2 ^ (bits - 1) = half at hValue ⊢
  have hRest : (value : Int) % (2 * half : Nat) = value :=
    Int.emod_eq_of_lt (Int.natCast_nonneg value) (by omega)
  rw [hRest]
  split <;> split <;> omega

/-- The number with the bytes of a field as its digits to the base 256, lowest digit first. A
field that is not inside the buffer as a whole has no digits. -/
def Bytes.wholeField (data : Bytes) (start width : Nat) : Nat :=
  if start + width ≤ data.size then
    Nat.ofDigits 256 ((data.extract start (start + width)).toList.map UInt8.toNat)
  else 0

/-- A field is read as a whole or is zero. No part of a field that runs past the end of the
buffer is looked at. -/
theorem Bytes.field_eq_wholeField (data : Bytes) (start width : Nat) :
    data.field start width = data.wholeField start width := by
  rw [field, wholeField, littleEndian_eq_ofDigits]

namespace Cursor

/-- The numbers without a sign, which are read where the cursor stands and looked up anywhere. -/
inductive Unsigned where
  | u8
  | u16
  | u32
deriving Repr, DecidableEq

def Unsigned.width : Unsigned → Nat
  | u8 => 1
  | u16 => 2
  | u32 => 4

inductive Number where
  | unsigned (kind : Unsigned)
  | i16
  | i32
  | f32
deriving Repr, DecidableEq

/-- The number without a sign that takes as many bytes. -/
def Number.bits : Number → Unsigned
  | unsigned kind => kind
  | i16 => .u16
  | i32 | f32 => .u32

inductive Operation where
  | seek (target : Nat)
  | skip (count : Nat)
  | read (number : Number)
  | readBytes (count : Nat)
  | peek (kind : Unsigned) (offset : Nat)
deriving Repr, DecidableEq

/-- The cursor is moved by reading bytes or not at all. -/
def Operation.OnlyTakes : Operation → Prop
  | readBytes _ | peek .. => True
  | _ => False

inductive Answer where
  | moved
  | natural (value : Nat)
  | integer (value : Int)
  | real (value : Float32)
  | bytes (part : Bytes)

/-- The bytes that are handed out. -/
def Answer.taken : Answer → List UInt8
  | bytes part => part.toList
  | _ => []

/-- What bits stand for: a number in two's complement, or in binary32, where it has a sign. -/
def Number.ofBits : Number → Nat → Answer
  | unsigned _, bits => .natural bits
  | i16, bits => .integer (Int.bmod bits (2 ^ 16))
  | i32, bits => .integer (Int.bmod bits (2 ^ 32))
  | f32, bits => .real (.ofBits (.ofNat bits))

def peek (c : Cursor) (offset : Nat) : Unsigned → Nat
  | .u8 => c.data.u8At offset
  | .u16 => c.data.u16At offset
  | .u32 => c.data.u32At offset

def perform (c : Cursor) : Operation → Answer × Cursor
  | .seek target => (.moved, c.seek target)
  | .skip count => (.moved, c.skip count)
  | .read (.unsigned .u8) => c.readU8.map .natural id
  | .read (.unsigned .u16) => c.readU16.map .natural id
  | .read (.unsigned .u32) => c.readU32.map .natural id
  | .read .i16 => c.readI16.map .integer id
  | .read .i32 => c.readI32.map .integer id
  | .read .f32 => c.readF32.map .real id
  | .readBytes count => (c.readBytes count).map .bytes id
  | .peek kind offset => (.natural (c.peek offset kind), c)

/-- An operation with its answer, and where the cursor stood before and after it. -/
structure Performed where
  operation : Operation
  before : Nat
  answer : Answer
  after : Nat

/-- The operations one behind the other. -/
def history : Cursor → List Operation → List Performed
  | _, [] => []
  | c, o :: rest =>
    let (answer, next) := c.perform o
    ⟨o, c.position, answer, next.position⟩ :: next.history rest

/-- What an operation has to answer and where it has to leave the cursor. -/
def Performed.Due (data : Bytes) : Performed → Prop
  | ⟨.seek target, _, answer, after⟩ => answer = .moved ∧ after = min data.size target
  | ⟨.skip count, before, answer, after⟩ =>
    answer = .moved ∧ after = min data.size (before + count)
  | ⟨.read number, before, answer, after⟩ =>
    answer = number.ofBits (data.wholeField before number.bits.width) ∧
      after = min data.size (before + number.bits.width)
  | ⟨.readBytes count, before, answer, after⟩ =>
    answer = .bytes (data.extract before (min data.size (before + count))) ∧
      after = min data.size (before + count)
  | ⟨.peek kind offset, before, answer, after⟩ =>
    answer = .natural (data.wholeField offset kind.width) ∧ after = before

/-- Operations move the cursor and leave the buffer alone. -/
theorem data_perform (c : Cursor) (o : Operation) : (c.perform o).2.data = c.data := by
  rcases o with _ | _ | ((_ | _ | _) | _ | _ | _) | _ | _ <;> rfl

/-- Looking up a number finds the field at its place, wherever the cursor stands. -/
theorem peek_eq_wholeField (c : Cursor) (offset : Nat) (kind : Unsigned) :
    c.peek offset kind = c.data.wholeField offset kind.width := by
  cases kind <;> exact Bytes.field_eq_wholeField ..

/-- A single operation gives the answer that is due and leaves the cursor where it has to be.
This is the step from which all that is said about histories follows. -/
theorem due_perform (c : Cursor) (o : Operation) :
    Performed.Due c.data ⟨o, c.position, (c.perform o).1, (c.perform o).2.position⟩ := by
  have hBits (kind : Unsigned) : c.data.field c.position kind.width =
      c.data.wholeField c.position kind.width := Bytes.field_eq_wholeField ..
  have hHalf : c.data.field c.position 2 < 2 ^ 16 := Bytes.field_lt ..
  have hWhole : c.data.field c.position 4 < 2 ^ 32 := Bytes.field_lt ..
  cases o with
  | seek target => exact ⟨rfl, Nat.min_comm ..⟩
  | skip count => exact ⟨rfl, Nat.min_comm ..⟩
  | read number =>
      refine ⟨?_, ?_⟩
      · rw [← hBits]
        cases number with
        | unsigned kind => cases kind <;> rfl
        | i16 => exact congrArg Answer.integer (signed_eq_bmod (by decide) hHalf)
        | i32 => exact congrArg Answer.integer (signed_eq_bmod (by decide) hWhole)
        | f32 => rfl
      · rcases number with (_ | _ | _) | _ | _ | _ <;> exact Nat.min_comm ..
  | readBytes count =>
      refine ⟨congrArg Answer.bytes ?_, Nat.min_comm ..⟩
      rw [Bytes.slice, Array.extract_eq_extract_right]
      omega
  | peek kind offset => exact ⟨congrArg Answer.natural (c.peek_eq_wholeField offset kind), rfl⟩

theorem history_cons (c : Cursor) (o : Operation) (rest : List Operation) :
    c.history (o :: rest) = ⟨o, c.position, (c.perform o).1, (c.perform o).2.position⟩ ::
      (c.perform o).2.history rest := rfl

theorem before_head?_history (c : Cursor) (operations : List Operation) :
    ∀ p ∈ (c.history operations).head?, p.before = c.position := by
  cases operations with
  | nil => exact nofun
  | cons o rest =>
      rintro p hHead
      rw [history_cons, List.head?_cons, Option.mem_some] at hHead
      rw [← hHead]

theorem map_operation_history (c : Cursor) (operations : List Operation) :
    (c.history operations).map Performed.operation = operations := by
  induction operations generalizing c with
  | nil => rfl
  | cons o rest ih => rw [history_cons, List.map_cons, ih]

/-- Every operation goes on where the one before it left the cursor. -/
theorem isChain_history (c : Cursor) (operations : List Operation) :
    (c.history operations).IsChain fun p q => p.after = q.before := by
  induction operations generalizing c with
  | nil => exact .nil
  | cons o rest ih =>
      rw [history_cons, List.isChain_cons]
      exact ⟨fun q hHead => (before_head?_history _ rest q hHead).symm, ih _⟩

/-- One that only takes bytes hands out those that the cursor is moved over. -/
theorem Performed.Due.taken {data : Bytes} {p : Performed} (hDue : p.Due data)
    (hTakes : p.operation.OnlyTakes) (hInside : p.before ≤ data.size) :
    p.before ≤ p.after ∧ p.answer.taken = (data.extract p.before p.after).toList := by
  obtain ⟨operation, before, answer, after⟩ := p
  cases operation with
  | seek target | skip count | read number => exact hTakes.elim
  | readBytes count =>
      obtain ⟨rfl, rfl⟩ := hDue
      dsimp only at hInside ⊢
      exact ⟨by omega, rfl⟩
  | peek kind offset =>
      obtain ⟨rfl, rfl⟩ := hDue
      refine ⟨Nat.le_refl _, ?_⟩
      simp [Answer.taken]

/-- What holds of every operation on a buffer holds of all operations of a history. The buffer
stays the same on the way, which is all that the induction carries along. -/
theorem forall_history {P : Performed → Prop} {data : Bytes}
    (hPerform : ∀ (c : Cursor) (o : Operation), c.data = data →
      P ⟨o, c.position, (c.perform o).1, (c.perform o).2.position⟩)
    {c : Cursor} (hData : c.data = data) (operations : List Operation) :
    ∀ p ∈ c.history operations, P p := by
  induction operations generalizing c with
  | nil => exact nofun
  | cons o rest ih =>
      rw [history_cons]
      exact List.forall_mem_cons.2 ⟨hPerform c o hData, ih ((c.data_perform o).trans hData)⟩

/-- Operations that only take bytes hand out all that is between the place where the first of them
begins and the place where the last one ends. -/
theorem flatMap_taken_eq_extract {data : Bytes} {part : List Performed} {first last : Performed}
    (hChain : part.IsChain fun p q => p.after = q.before)
    (hDue : ∀ p ∈ part, p.Due data ∧ p.before ≤ data.size)
    (hTakes : ∀ p ∈ part, p.operation.OnlyTakes) (hFirst : part.head? = some first)
    (hLast : part.getLast? = some last) :
    first.before ≤ last.after ∧
      part.flatMap (fun p => p.answer.taken) = (data.extract first.before last.after).toList := by
  induction part generalizing first with
  | nil => cases hFirst
  | cons p rest ih =>
      obtain rfl := Option.some.inj hFirst
      obtain ⟨⟨hHead, hInside⟩, hRest⟩ := List.forall_mem_cons.1 hDue
      obtain ⟨hHeadTakes, hRestTakes⟩ := List.forall_mem_cons.1 hTakes
      obtain ⟨hOrder, hTaken⟩ := hHead.taken hHeadTakes hInside
      cases rest with
      | nil =>
          obtain rfl := Option.some.inj hLast
          rw [List.flatMap_singleton]
          exact ⟨hOrder, hTaken⟩
      | cons q rest =>
          obtain ⟨hNext, hLater⟩ := List.isChain_cons_cons.1 hChain
          obtain ⟨hLaterOrder, hLaterTaken⟩ := ih hLater hRest hRestTakes rfl hLast
          rw [← hNext] at hLaterOrder hLaterTaken
          rw [List.flatMap_cons, hTaken, hLaterTaken, ← Array.toList_append,
            Array.extract_append_extract, Nat.min_eq_left hOrder, Nat.max_eq_right hLaterOrder]
          exact ⟨Nat.le_trans hOrder hLaterOrder, rfl⟩

end Cursor

namespace Machine.Reader

open Word Cursor

/-- The bytes of a field. Its end may lie behind the end of the buffer, or be no word at all. -/
def field (r : Reader) (offset width : Nat) : Option Bytes := do
  slice r.data offset (← add offset width)

/-- What the bytes of a field are read as, or else what stands for a field that is not there. -/
def fieldAs {α : Type} (r : Reader) (offset width : Nat) (read : Nat → α) (absent : α) : α :=
  ((r.field offset width).map fun part => read (littleEndian part.toList)).getD absent

/-- A single byte is found by its index, so there is no end that might not be a word. -/
def peek (r : Reader) (offset : Nat) : Unsigned → Nat
  | .u8 => (r.data[offset]?.map UInt8.toNat).getD 0
  | .u16 => r.fieldAs offset 2 (fun bits => bits) 0
  | .u32 => r.fieldAs offset 4 (fun bits => bits) 0

def perform (r : Reader) : Operation → Option (Answer × Reader)
  | .seek target => some (.moved, r.seek target)
  | .skip count => some (.moved, r.skip count)
  | .read (.unsigned kind) => some (.natural (r.peek r.position kind), r.skip kind.width)
  | .read .i16 => some (.integer (r.fieldAs r.position 2 (Metafile.signed 16) 0), r.skip 2)
  | .read .i32 => some (.integer (r.fieldAs r.position 4 (Metafile.signed 32) 0), r.skip 4)
  | .read .f32 =>
    some (.real (r.fieldAs r.position 4 (fun bits => .ofBits (.ofNat bits)) 0), r.skip 4)
  | .readBytes count => (r.bytes count).map fun (part, after) => (.bytes part, after)
  | .peek kind offset => some (.natural (r.peek offset kind), r)

/-- The operations one behind the other, if each of them can be carried out. -/
def history : Reader → List Operation → Option (List Performed)
  | _, [] => some []
  | r, o :: rest => do
    let (answer, next) ← r.perform o
    return ⟨o, r.position, answer, next.position⟩ :: (← next.history rest)

variable {data : Bytes} {position : Nat}

/-- A field is cut out if it ends inside the buffer. On a buffer of the machine its end is a word
if it is inside, and one that is not a word is not inside. -/
theorem field_eq (hSize : data.size < 2 ^ 63) (offset width : Nat) :
    field ⟨data, position⟩ offset width =
      if offset + width ≤ data.size then some (data.extract offset (offset + width)) else none := by
  simp only [field, Option.bind_eq_bind]
  split
  case isTrue hFits =>
    rw [add_eq (by omega), Option.bind_some, slice_eq (by omega) hFits]
  case isFalse hPast =>
    refine Option.bind_eq_none_iff.2 fun stop hStop => ?_
    obtain rfl : offset + width = stop := by
      simp only [add, unsigned, Option.ite_none_right_eq_some, Option.some.injEq] at hStop
      exact hStop.2
    exact if_neg fun hSlice => hPast hSlice.2

theorem fieldAs_eq {α : Type} (hSize : data.size < 2 ^ 63) (offset width : Nat) {read : Nat → α}
    {absent : α} (hAbsent : read 0 = absent) :
    fieldAs ⟨data, position⟩ offset width read absent = read (data.field offset width) := by
  rw [fieldAs, field_eq hSize, Bytes.field]
  split
  case isTrue => rfl
  case isFalse => exact hAbsent.symm

theorem peek_eq (hSize : data.size < 2 ^ 63) (hInside : position ≤ data.size) (offset : Nat)
    (kind : Unsigned) :
    peek ⟨data, position⟩ offset kind = Cursor.peek ⟨data, position, hInside⟩ offset kind := by
  cases kind with
  | u8 =>
      by_cases hByte : offset < data.size
      · rw [Cursor.peek, Bytes.u8At_of_lt hByte, peek, Array.getElem?_eq_getElem hByte]
        rfl
      · have hPast : data.size < offset + 1 := by omega
        rw [Cursor.peek, Bytes.u8At, Bytes.field_eq_zero hPast, peek,
          Array.getElem?_eq_none (Nat.not_lt.1 hByte)]
        rfl
  | u16 => rw [peek, fieldAs_eq hSize offset 2 rfl]; rfl
  | u32 => rw [peek, fieldAs_eq hSize offset 4 rfl]; rfl

/-- An operation of the machine has a value, which is the answer and the position of the same
operation on a cursor. -/
theorem perform_eq (hSize : data.size < 2 ^ 63) (hInside : position ≤ data.size) (o : Operation) :
    perform ⟨data, position⟩ o = some ((Cursor.perform ⟨data, position, hInside⟩ o).1,
      ⟨data, (Cursor.perform ⟨data, position, hInside⟩ o).2.position⟩) := by
  cases o with
  | seek target => rfl
  | skip count => rw [perform, skip_eq hSize]; rfl
  | read number =>
      cases number with
      | unsigned kind =>
          rw [perform, peek_eq hSize hInside, skip_eq hSize]
          cases kind <;> rfl
      | i16 =>
          have hZero : Metafile.signed 16 0 = 0 := rfl
          rw [perform, fieldAs_eq hSize _ _ hZero, skip_eq hSize]
          rfl
      | i32 =>
          have hZero : Metafile.signed 32 0 = 0 := rfl
          rw [perform, fieldAs_eq hSize _ _ hZero, skip_eq hSize]
          rfl
      | f32 =>
          have hZero : Float32.ofBits (.ofNat 0) = 0 := rfl
          rw [perform, fieldAs_eq hSize _ _ hZero, skip_eq hSize]
          rfl
  | readBytes count => rw [perform, bytes_eq hSize hInside]; rfl
  | peek kind offset => rw [perform, peek_eq hSize hInside]; rfl

/-- And so have any number of them: no operation takes the reader out of the buffer, so that the
next one finds what it needs. -/
theorem history_eq (c : Cursor) (hSize : c.data.size < 2 ^ 63) (operations : List Operation) :
    history ⟨c.data, c.position⟩ operations = some (c.history operations) := by
  induction operations generalizing c with
  | nil => rfl
  | cons o rest ih =>
      have hData := c.data_perform o
      have hRest : history ⟨c.data, (c.perform o).2.position⟩ rest =
          some ((c.perform o).2.history rest) := by
        rw [← hData]
        exact ih _ (by rwa [hData])
      rw [history, perform_eq hSize c.position_le, history_cons]
      simp only [Option.bind_eq_bind, Option.bind_some, hRest]
      rfl

/-- Whatever is done with a cursor can be carried out and is answered as it has to be. A number that
is read is made of the bits that are found when it is looked up, and what bytes are taken by several
operations with no other move between them is the stretch of the buffer that they move over. -/
theorem history_wholeFields (data : Bytes) (hSize : data.size < 2 ^ 63)
    (operations : List Operation) :
    ∃ performed : List Performed,
      history ⟨data, 0⟩ operations = some performed ∧
      Cursor.history (.ofBytes data) operations = performed ∧
      performed.map Performed.operation = operations ∧
      (∀ p ∈ performed.head?, p.before = 0) ∧
      (performed.IsChain fun p q => p.after = q.before) ∧
      (∀ p ∈ performed, p.before ≤ data.size ∧ p.after ≤ data.size ∧ p.Due data) ∧
      (∀ p ∈ performed, ∀ number, p.operation = .read number → ∃ bits,
        perform ⟨data, p.before⟩ (.peek number.bits p.before) =
          some (.natural bits, ⟨data, p.before⟩) ∧ p.answer = number.ofBits bits) ∧
      ∀ part, part <:+: performed → (∀ p ∈ part, p.operation.OnlyTakes) →
        ∀ first ∈ part.head?, ∀ last ∈ part.getLast?,
          part.flatMap (fun p => p.answer.taken) =
            (data.extract first.before last.after).toList := by
  have hBounds : ∀ p ∈ Cursor.history (.ofBytes data) operations,
      p.before ≤ data.size ∧ p.after ≤ data.size ∧ p.Due data := by
    have hData : (Cursor.ofBytes data).data = data := rfl
    refine forall_history (fun c o hData => ?_) hData operations
    subst hData
    exact ⟨c.position_le, (c.data_perform o) ▸ (c.perform o).2.position_le, c.due_perform o⟩
  have hChain := isChain_history (.ofBytes data) operations
  have hHistory := history_eq (.ofBytes data) hSize operations
  refine ⟨_, hHistory, rfl, map_operation_history .., before_head?_history _ operations, hChain,
    hBounds, ?_, ?_⟩
  · intro p hMem number hRead
    obtain ⟨hBefore, -, hDue⟩ := hBounds p hMem
    obtain ⟨operation, before, answer, after⟩ := p
    obtain rfl : operation = .read number := hRead
    refine ⟨data.wholeField before number.bits.width, ?_, hDue.1⟩
    rw [perform_eq hSize hBefore, Cursor.perform, peek_eq_wholeField]
  · intro part hPart hTakes first hFirst last hLast
    have hPartChain := List.IsChain.infix hChain hPart
    refine (flatMap_taken_eq_extract hPartChain (fun p hMem => ?_) hTakes hFirst hLast).2
    obtain ⟨hBefore, -, hDue⟩ := hBounds p (hPart.subset hMem)
    exact ⟨hDue, hBefore⟩

/-- A field that straddles the end, moves and a look-up far behind it, and bytes that are taken with
the look-up between them. -/
def straddlingOperations : List Operation :=
  [.seek 3, .read .i32, .seek 2, .read .i16, .skip (2 ^ 64 - 1), .seek 1, .readBytes 2,
    .peek .u16 (2 ^ 64 - 1), .readBytes (2 ^ 64 - 1)]

def straddlingHistory : List Performed :=
  [⟨.seek 3, 0, .moved, 3⟩, ⟨.read .i32, 3, .integer 0, 5⟩, ⟨.seek 2, 5, .moved, 2⟩,
    ⟨.read .i16, 2, .integer (-8756), 4⟩, ⟨.skip (2 ^ 64 - 1), 4, .moved, 5⟩,
    ⟨.seek 1, 5, .moved, 1⟩, ⟨.readBytes 2, 1, .bytes #[0xBB, 0xCC], 3⟩,
    ⟨.peek .u16 (2 ^ 64 - 1), 3, .natural 0, 3⟩,
    ⟨.readBytes (2 ^ 64 - 1), 3, .bytes #[0xDD, 0xEE], 5⟩]

/-- The answers to these operations on five bytes. A number is read as zero where its field
straddles the end, and as its bytes where it just ends there. -/
theorem history_wholeFields_straddlingOperations :
    let data : Bytes := #[0xAA, 0xBB, 0xCC, 0xDD, 0xEE]
    data.size < 2 ^ 63 ∧ history ⟨data, 0⟩ straddlingOperations = some straddlingHistory ∧
      (∃ bits, perform ⟨data, 2⟩ (.peek .u16 2) = some (.natural bits, ⟨data, 2⟩) ∧
        Answer.integer (-8756) = Number.i16.ofBits bits) ∧
      (straddlingHistory.drop 6).flatMap (fun p => p.answer.taken) =
        (data.extract 1 5).toList := by
  intro data
  have hSize : data.size < 2 ^ 63 := by decide
  have hPerformed : history ⟨data, 0⟩ straddlingOperations = some straddlingHistory := by cbv
  obtain ⟨performed, hHistory, -, -, -, -, -, hLookedUp, hTaken⟩ :=
    history_wholeFields data hSize straddlingOperations
  obtain rfl := Option.some.inj (hPerformed.symm.trans hHistory)
  refine ⟨hSize, hPerformed, hLookedUp ⟨.read .i16, 2, .integer (-8756), 4⟩ ?_ .i16 rfl, ?_⟩
  · simp [straddlingHistory]
  · exact hTaken _ (List.drop_suffix 6 _).isInfix (by simp [straddlingHistory, Operation.OnlyTakes])
      _ rfl _ rfl

end Machine.Reader

end Metafile
