import Metafile.Proofs.Bytes.Part
import Metafile.Record.Reading

/-! Reads that a payload settles. What they take from a payload lies inside it, so they
take the same when more bytes follow. A read that fails for want of bytes settles
nothing and may well succeed on a longer payload. -/

namespace Metafile

/-- Two steps of a reading succeed just if both of them do, the second one with the value of the
first. -/
theorem bind_eq_ok_iff {ε α β : Type} {read : Except ε α} {rest : α → Except ε β} {value : β} :
    read >>= rest = .ok value ↔ ∃ first, read = .ok first ∧ rest first = .ok value := by
  cases read <;> simp [bind, Except.bind]

/-- A value that is found just if there are enough bytes is not found without them. -/
theorem ne_ok_iff {ε α : Type} {read : Except ε α} {Enough : Prop} {found : α}
    (hRead : ∀ value, read = .ok value ↔ Enough ∧ found = value) :
    (∀ value, read ≠ .ok value) ↔ ¬Enough :=
  ⟨fun hNone hEnough => hNone found ((hRead found).2 ⟨hEnough, rfl⟩),
    fun hShort value hValue => hShort ((hRead value).1 hValue).1⟩

namespace Bytes

variable {p : Bytes} {start : Nat} (extra : Bytes)

/-- A byte inside a payload is read alike with others behind it. The lemmas for wider fields say
the same of them. -/
theorem u8At_append (hFits : start + 1 ≤ p.size) : u8At (p ++ extra) start = p.u8At start :=
  field_append hFits extra

theorem u16At_append (hFits : start + 2 ≤ p.size) : u16At (p ++ extra) start = p.u16At start :=
  field_append hFits extra

theorem u32At_append (hFits : start + 4 ≤ p.size) : u32At (p ++ extra) start = p.u32At start :=
  field_append hFits extra

theorem i16At_append (hFits : start + 2 ≤ p.size) : i16At (p ++ extra) start = p.i16At start := by
  rw [i16At, i16At, u16At_append extra hFits]

theorem i32At_append (hFits : start + 4 ≤ p.size) : i32At (p ++ extra) start = p.i32At start := by
  rw [i32At, i32At, u32At_append extra hFits]

theorem f32At_append (hFits : start + 4 ≤ p.size) : f32At (p ++ extra) start = p.f32At start := by
  rw [f32At, f32At, u32At_append extra hFits]

theorem slice_append {count : Nat} (hFits : start + count ≤ p.size) :
    slice (p ++ extra) start count = p.slice start count :=
  extract_append hFits extra

theorem need_append {required : Nat} (hFits : required ≤ p.size) :
    need (p ++ extra) required = .ok () := by
  rw [need_eq_ok_iff, Array.size_append]
  omega

/-- What is read behind a check of the size is read just if there are enough bytes. -/
theorem need_bind_eq_ok_iff {α : Type} {required : Nat} {rest : Unit → Except Fault α} {value : α} :
    p.need required >>= rest = .ok value ↔ required ≤ p.size ∧ rest () = .ok value := by
  unfold need
  split
  case isTrue hShort => exact ⟨nofun, fun ⟨hSize, _⟩ => absurd hSize (Nat.not_le.2 hShort)⟩
  case isFalse hSize => exact ⟨fun hRest => ⟨Nat.not_lt.1 hSize, hRest⟩, And.right⟩

variable {extra}

/-- What follows a check of the size counts on the bytes that were asked for. -/
theorem need_bind_append {α : Type} {required : Nat} {rest more : Unit → Except Fault α} {value : α}
    (hRead : p.need required >>= rest = .ok value)
    (hMore : required ≤ p.size → rest () = .ok value → more () = .ok value) :
    need (p ++ extra) required >>= more = .ok value := by
  rw [need_bind_eq_ok_iff] at hRead ⊢
  obtain ⟨hSize, hRest⟩ := hRead
  refine ⟨?_, hMore hSize hRest⟩
  rw [Array.size_append]
  omega

end Bytes

namespace Layout

variable {α : Type}

/-- A value is stored in as many bytes as its layout says, and read from no others. -/
def Local (l : Layout α) : Prop :=
  ∀ (p extra : Bytes) (start : Nat), start + l.size ≤ p.size →
    l.read (p ++ extra) start = l.read p start

theorem local_word : word.Local := fun _ extra _ hFits => Bytes.u16At_append extra hFits

theorem local_dword : dword.Local := fun _ extra _ hFits => Bytes.u32At_append extra hFits

theorem local_shortPoint [Scalar α] : (shortPoint (α := α)).Local := by
  intro p extra start hFits
  have hSize : start + 4 ≤ p.size := hFits
  simp (disch := omega) only [shortPoint, Bytes.i16At_append]

theorem local_longPoint [Scalar α] : (longPoint (α := α)).Local := by
  intro p extra start hFits
  have hSize : start + 8 ≤ p.size := hFits
  simp (disch := omega) only [longPoint, Bytes.i32At_append]

variable {l : Layout α} {p : Bytes} {start : Nat}

/-- If every value of a list is read from its own bytes, so is the list. -/
theorem list_append (hLocal : l.Local) (extra : Bytes) {count : Nat}
    (hFits : start + l.size * count ≤ p.size) :
    l.list (p ++ extra) start count = l.list p start count := by
  apply List.map_congr_left
  intro i hMem
  have hNext : l.size * i + l.size ≤ l.size * count :=
    Nat.mul_le_mul_left l.size (Nat.succ_le_of_lt (List.mem_range.1 hMem))
  apply hLocal
  omega

/-- And so are lists behind each other, whose lengths have been read before. -/
theorem lists_append (hLocal : l.Local) (extra : Bytes) {counts : List Nat}
    (hFits : start + l.size * total counts ≤ p.size) :
    l.lists (p ++ extra) start counts = l.lists p start counts := by
  induction counts generalizing start with
  | nil => rfl
  | cons count counts ih =>
      have hTotal : l.size * total (count :: counts) = l.size * count + l.size * total counts :=
        Nat.mul_add ..
      rw [lists, lists, list_append hLocal extra (by omega), ih (by omega)]

end Layout

/-- What is read from a payload without a fault is read from every longer payload that
begins with it. -/
def Settled {α : Type} (read : Bytes → Except Fault α) : Prop :=
  ∀ (p extra : Bytes) (value : α), read p = .ok value → read (p ++ extra) = .ok value

namespace Settled

variable {α β : Type}

theorem pure (value : α) : Settled fun _ => .ok value := fun _ _ _ hRead => hRead

/-- The values behind a read may depend on the payload, too. -/
theorem bind {read : Bytes → Except Fault α} {rest : α → Bytes → Except Fault β}
    (hRead : Settled read) (hRest : ∀ value, Settled (rest value)) :
    Settled fun p => read p >>= fun value => rest value p := by
  intro p extra value hBoth
  obtain ⟨first, hFirst, hSecond⟩ := bind_eq_ok_iff.1 hBoth
  exact bind_eq_ok_iff.2
    ⟨first, hRead p extra first hFirst, hRest first p extra value hSecond⟩

theorem map {read : Bytes → Except Fault α} (hRead : Settled read) (f : α → β) :
    Settled fun p => read p >>= fun value => .ok (f value) :=
  hRead.bind fun _ => pure _

/-- A value that is made of the bytes that were asked for. -/
theorem need {required : Nat} {f : Bytes → α}
    (hSame : ∀ p extra, required ≤ p.size → f (p ++ extra) = f p) :
    Settled fun p => p.need required >>= fun _ => .ok (f p) := by
  intro p extra value hRead
  refine Bytes.need_bind_append hRead ?_
  intro hFits hValue
  rw [hSame p extra hFits]
  exact hValue

end Settled

/-- The same of all that a record asks for. Nothing is settled by a record that fails, even
if it asks for something before it does. -/
def SettledReading {α : Type} (read : Bytes → Reading α) : Prop :=
  ∀ p extra : Bytes, (read p).outcome = .done → read (p ++ extra) = read p

namespace SettledReading

variable {α : Type}

/-- What is read as a whole is a settled reading if the value is settled. -/
theorem ofExcept {read : Bytes → Except Fault (List α)} (hRead : Settled read) :
    SettledReading fun p => .ofExcept (read p) := by
  intro p extra hDone
  cases hValue : read p with
  | error fault =>
      simp only [hValue] at hDone
      cases hDone
  | ok value => simp only [hRead p extra value hValue, hValue]

/-- Asking for a number of bytes first keeps a reading settled, as a payload that passes the
check also passes it with more behind. -/
theorem needing {required : Nat} {rest : Bytes → Reading α} (hRest : SettledReading rest) :
    SettledReading fun p => .needing p required (rest p) := by
  intro p extra hDone
  by_cases hSize : required ≤ p.size
  · simp only [Reading.needing, Bytes.need_eq_ok_iff.2 hSize, Bytes.need_append extra hSize]
      at hDone ⊢
    exact hRest p extra hDone
  · simp only [Reading.needing, Bytes.need, Nat.lt_of_not_le hSize, if_true] at hDone
    cases hDone

/-- So do actions that are asked for before anything is read. -/
theorem after {rest : Bytes → Reading α} (hRest : SettledReading rest) (first : List α) :
    SettledReading fun p => .after first (rest p) := by
  intro p extra hDone
  simp only [Reading.after] at hDone ⊢
  rw [hRest p extra hDone]

end SettledReading

end Metafile
