import Metafile.Geometry.Curve
import Metafile.Proofs.Machine.Word
import Metafile.Record.Reading
import Metafile.Text.Encoding

/-! Reading payloads on the machine. A reading that fails has a value, which is its fault; one
that stops has none. -/

namespace Metafile.Machine

open Word

/-- What is read from a payload, unless the machine stops. -/
abbrev Run (α : Type) := ExceptT Fault Option α

section

variable {α β : Type}

/-- The machine does not stop, and reads what is to be read. -/
def Agrees (run : Run α) (read : Except Fault α) : Prop := run.run = some read

theorem agrees_pure (value : α) : Agrees (pure value) (pure value) := rfl

theorem agrees_throw (fault : Fault) : Agrees (throw fault : Run α) (throw fault) := rfl

theorem agrees_lift (read : Except Fault α) : Agrees (liftM read) read := rfl

/-- Two readings that agree may be followed by others that agree on every value that can be read.
So agreement is proved along the steps of a program. -/
theorem Agrees.bind {run : Run α} {read : Except Fault α} {rest : α → Run β}
    {goOn : α → Except Fault β} (hRead : Agrees run read)
    (hRest : ∀ value, read = .ok value → Agrees (rest value) (goOn value)) :
    Agrees (run >>= rest) (read >>= goOn) := by
  have hRun : run = some read := hRead
  subst hRun
  cases read with
  | error fault => rfl
  | ok value => exact hRest value rfl

/-- And both branches of a decision may be looked at apart from each other. -/
theorem Agrees.ite {c : Prop} [Decidable c] {run other : Run α} {read otherwise : Except Fault α}
    (hThen : Agrees run read) (hElse : Agrees other otherwise) :
    Agrees (if c then run else other) (if c then read else otherwise) := by
  by_cases hCase : c
  · rw [if_pos hCase, if_pos hCase]
    exact hThen
  · rw [if_neg hCase, if_neg hCase]
    exact hElse

/-- A required size is checked first, and what follows may rely on it. -/
theorem Agrees.need {p : Bytes} {required : Nat} {rest : Unit → Run β}
    {goOn : Unit → Except Fault β}
    (hRest : required ≤ p.size → Agrees (rest ()) (goOn ())) :
    Agrees (liftM (p.need required) >>= rest) (p.need required >>= goOn) :=
  (agrees_lift _).bind fun _ hNeed => hRest (Bytes.need_eq_ok_iff.1 hNeed)

/-- A size that is known to be there may be required again. -/
theorem Agrees.room {p : Bytes} {required : Nat} {rest : Unit → Run β} {read : Except Fault β}
    (hRoom : required ≤ p.size) (hRest : Agrees (rest ()) read) :
    Agrees (liftM (p.need required) >>= rest) read := by
  rw [Bytes.need_eq_ok_iff.2 hRoom]
  exact hRest

theorem agrees_word {operation : Option α} {value : α} (hValue : operation = some value) :
    Agrees (liftM operation) (pure value) := by
  subst hValue
  exact agrees_pure value

/-- An operation with a value makes no difference to what is read. -/
theorem Agrees.word {operation : Option α} {value : α} {rest : α → Run β} {read : Except Fault β}
    (hValue : operation = some value) (hRest : Agrees (rest value) read) :
    Agrees (liftM operation >>= rest) read := by
  subst hValue
  exact hRest

end

namespace Text

/-- The 16-bit units of pairs of bytes. -/
def units (bytes : List UInt8) : Option (List Nat) :=
  (chunks 2 bytes).mapM fun pair => do return (← pair[0]?).toNat + 256 * (← pair[1]?).toNat

def ofUtf16 (bytes : Bytes) : Option String := do
  return String.ofList
    (Metafile.Text.trimNuls (Metafile.Text.utf16Chars (← units bytes.toList)))

/-- Pairs of bytes have two bytes each, so that looking into them never fails. The induction is
that of the decoder of units. -/
theorem units_eq (bytes : List UInt8) : units bytes = some (Metafile.Text.utf16Units bytes) := by
  induction bytes using Metafile.Text.utf16Units.induct with
  | case1 low high rest ih =>
      unfold units at ih ⊢
      rw [chunks, if_pos (by simp)]
      simp only [List.take_succ_cons, List.take_zero, List.drop_succ_cons, List.drop_zero,
        List.mapM_cons, ih, Metafile.Text.utf16Units]
      rfl
  | case2 bytes hShort =>
      have hLength : bytes.length < 2 := by
        match bytes, hShort with
        | [], _ => exact Nat.two_pos
        | [_], _ => exact Nat.one_lt_two
        | low :: high :: rest, hShort => exact absurd rfl (hShort low high rest)
      unfold units
      rw [chunks, if_neg (by omega), Metafile.Text.utf16Units]
      · rfl
      · exact hShort

theorem ofUtf16_eq (bytes : Bytes) : ofUtf16 bytes = some (Metafile.Text.ofUtf16 bytes) := by
  rw [ofUtf16, units_eq]
  rfl

end Text

namespace Bezier

/-- The points of a chain of curves behind its start, by the three points of each curve. -/
def chainOf (start : Point Float) : List (List (Point Float)) → Option (List (Point Float))
  | [] => some []
  | curve :: curves => do
    let p1 ← curve[0]?
    let p2 ← curve[1]?
    let p3 ← curve[2]?
    return Metafile.Bezier.segment start p1 p2 p3 ++ (← chainOf p3 curves)

def flatten (start : Point Float) (controls : List (Point Float)) :
    Option (List (Point Float)) := do
  return start :: (← chainOf start (chunks 3 controls))

/-- Groups of three points have three points each, so that a chain of curves is computed without
stopping. -/
theorem chainOf_chunks (start : Point Float) (controls : List (Point Float)) :
    chainOf start (chunks 3 controls) = some (Metafile.Bezier.chain start controls) := by
  induction start, controls using Metafile.Bezier.chain.induct with
  | case1 start p1 p2 p3 rest ih =>
      rw [chunks, if_pos (by simp)]
      show (chainOf p3 (chunks 3 rest) >>= fun later =>
        pure (Metafile.Bezier.segment start p1 p2 p3 ++ later)) = _
      rw [ih, Metafile.Bezier.chain]
      rfl
  | case2 controls start hShort =>
      have hLength : controls.length < 3 := by
        match controls, hShort with
        | [], _ | [_], _ | [_, _], _ => simp
        | p1 :: p2 :: p3 :: rest, hShort => exact absurd rfl (hShort p1 p2 p3 rest)
      rw [chunks, if_neg (by omega), chainOf, Metafile.Bezier.chain]
      exact hShort

theorem flatten_eq (start : Point Float) (controls : List (Point Float)) :
    flatten start controls = some (Metafile.Bezier.flatten start controls) := by
  rw [flatten, chainOf_chunks]
  rfl

end Bezier

/-- A sum that fits is computed without passing the greatest word on the way. -/
theorem sum_eq {counts : List Nat} (hFits : Layout.total counts < 2 ^ 64) :
    sum counts = some (Layout.total counts) := by
  have hFrom : ∀ start, start + Layout.total counts < 2 ^ 64 →
      counts.foldlM add start = some (start + Layout.total counts) := by
    induction counts with
    | nil => exact fun start _ => rfl
    | cons count counts ih =>
        have hTotal : Layout.total (count :: counts) = count + Layout.total counts := rfl
        intro start hStart
        rw [hTotal] at hStart hFits ⊢
        rw [List.foldlM_cons, add_eq (by omega)]
        exact (ih (by omega) _ (by omega)).trans (by rw [Nat.add_assoc])
  have hSum := hFrom 0 (by omega)
  rwa [Nat.zero_add] at hSum

/-- Bounded numbers add up to no more than so many times the bound, which keeps the room that is
required for them a word. -/
theorem total_le {counts : List Nat} {bound : Nat} (hBound : ∀ count ∈ counts, count ≤ bound) :
    Layout.total counts ≤ counts.length * bound := by
  induction counts with
  | nil => exact Nat.zero_le _
  | cons count counts ih =>
      obtain ⟨hFirst, hRest⟩ := List.forall_mem_cons.1 hBound
      have hTotal : Layout.total (count :: counts) = count + Layout.total counts := rfl
      rw [hTotal, List.length_cons, Nat.add_one_mul, Nat.add_comm]
      exact Nat.add_le_add (ih hRest) hFirst

/-- Bounded numbers of a payload add up to no more than so many times the bound. -/
theorem total_list_le {l : Layout Nat} {bound : Nat} (hRead : ∀ p start, l.read p start ≤ bound)
    (p : Bytes) (start count : Nat) : Layout.total (l.list p start count) ≤ count * bound := by
  have hBound : ∀ value ∈ l.list p start count, value ≤ bound := by
    intro value hMem
    obtain ⟨i, -, rfl⟩ := List.mem_map.1 hMem
    exact hRead ..
  have hTotal := total_le hBound
  rwa [Layout.length_list] at hTotal

/-- What becomes of a record whose payload is read. -/
def Run.reading {α : Type} (run : Run (List α)) : Option (Reading α) := run.run.map .ofExcept

/-- What agrees as a program is the same reading of a record. -/
theorem Agrees.reading_eq {α : Type} {run : Run (List α)} {read : Except Fault (List α)}
    (hRead : Agrees run read) : run.reading = some (.ofExcept read) := by
  rw [Run.reading, show run.run = some read from hRead, Option.map_some]

end Metafile.Machine
