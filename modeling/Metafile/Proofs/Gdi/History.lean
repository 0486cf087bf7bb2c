import Mathlib.Data.List.Induction
import Mathlib.Order.Bounds.Basic
import Metafile.Proofs.Gdi.ObjectTable

/-! What a table of objects tells about its history. Every operation is one of three events: an
object is stored at a handle, the object at a handle is deleted, or all objects are. Main
statement: an object is found at a handle just if the last event there stored it, a new object is
given the least handle without one, and there are as many slots as the last clearing and the handles
used since then require. -/

namespace Metafile.Gdi.ObjectTable

/-- What an operation does to the objects in a table. -/
inductive Event where
  | stored (handle : Nat) (object : Object)
  | deleted (handle : Nat)
  | cleared

namespace Event

/-- After the event the object that was at the handle is not there any more. -/
def Ends (handle : Nat) : Event → Prop
  | stored other _ | deleted other => other = handle
  | cleared => True

def applyTo (t : ObjectTable) : Event → ObjectTable
  | stored handle object => t.put handle object
  | deleted handle => t.delete handle
  | cleared => t.clear

/-- After an event an object is found if it was stored, or if it was found before and has not been
ended. -/
theorem select?_applyTo (t : ObjectTable) (e : Event) (handle : Nat) (object : Object) :
    (e.applyTo t).select? handle = some object ↔
      e = stored handle object ∨ t.select? handle = some object ∧ ¬e.Ends handle := by
  cases e with
  | stored other new =>
      rw [applyTo, select?_put]
      by_cases hSame : handle = other
      · simp [hSame, Ends]
      · simp [hSame, Ends, Ne.symm hSame]
  | deleted other =>
      rw [applyTo, select?_delete]
      by_cases hSame : handle = other
      · simp [hSame, Ends]
      · simp [hSame, Ends, Ne.symm hSame]
  | cleared => simp [applyTo, clear, Ends]

/-- Slots are there for the handle that is stored at and for those that were there before, unless
the table was cleared. -/
theorem lt_size_applyTo (t : ObjectTable) (e : Event) (n : Nat) :
    n < (e.applyTo t).slots.size ↔
      (∃ handle object, e = stored handle object ∧ n ≤ handle) ∨
        n < t.slots.size ∧ e ≠ cleared := by
  cases e with
  | stored handle object =>
      have hStored : (∃ handle' object', stored handle object = stored handle' object' ∧
          n ≤ handle') ↔ n ≤ handle := by simp
      have hKept : stored handle object ≠ cleared := nofun
      rw [applyTo, size_put, hStored, and_iff_left hKept]
      omega
  | deleted handle => simp [applyTo]
  | cleared => simp [applyTo, clear, empty]

end Event

variable (t : ObjectTable)

/-- New objects are stored at the next handle. -/
def event : Operation → Event
  | .create object => .stored t.nextHandle object
  | .createPen style width color => .stored t.nextHandle (.pen ⟨style, width, color⟩)
  | .createBrush style color => .stored t.nextHandle (.brush ⟨style, color, 0⟩)
  | .put handle object => .stored handle object
  | .delete handle => .deleted handle
  | .clear => .cleared

/-- An operation does to a table what its event does. The table matters only for the handle of a
new object. -/
theorem step_eq (op : Operation) : t.step op = (t.event op).applyTo t := by
  cases op <;> rfl

/-- A handle is given to an object that is stored at it. -/
theorem event_of_given {t : ObjectTable} {op : Operation} {handle : Nat}
    (hGiven : t.given? op = some handle) :
    handle = t.nextHandle ∧ ∃ object, t.event op = .stored t.nextHandle object := by
  cases op with
  | create | createPen | createBrush => exact ⟨(Option.some.inj hGiven).symm, _, rfl⟩
  | put | delete | clear => cases hGiven

/-- The events of operations on a table. -/
def history : ObjectTable → List Operation → List Event
  | _, [] => []
  | t, op :: ops => t.event op :: history (t.step op) ops

/-- The history of one operation more has one event more at its end, with the handle that the
table has free then. -/
theorem history_append (ops : List Operation) (op : Operation) :
    history t (ops ++ [op]) = history t ops ++ [(ops.foldl step t).event op] := by
  induction ops generalizing t with
  | nil => rfl
  | cons first ops ih =>
      rw [List.cons_append, history, history, ih, List.cons_append, List.foldl_cons]

/-- And the table behind it is the one before it with this event applied. -/
theorem ofOperations_append (ops : List Operation) (op : Operation) :
    ofOperations (ops ++ [op]) = ((ofOperations ops).event op).applyTo (ofOperations ops) := by
  rw [← step_eq]
  exact List.foldl_append

/-- The event at a place in a history is of one sort and none of the later ones is of another. -/
def Lasts (begins ends : Event → Prop) (events : List Event) (place : Nat) : Prop :=
  (∃ e, events[place]? = some e ∧ begins e) ∧
    ∀ later > place, ∀ e, events[later]? = some e → ¬ends e

/-- Events keep their places when another one follows. -/
theorem getElem?_append_eq_some_iff {events : List Event} {e other : Event} {place : Nat} :
    (events ++ [e])[place]? = some other ↔
      events[place]? = some other ∨ place = events.length ∧ e = other := by
  rcases Nat.lt_trichotomy place events.length with hBefore | rfl | hBehind
  · rw [List.getElem?_append_left hBefore]
    exact (or_iff_left fun hEnd => Nat.ne_of_lt hBefore hEnd.1).symm
  · simp
  · rw [List.getElem?_eq_none (by simp; omega), List.getElem?_eq_none (Nat.le_of_lt hBehind)]
    simp [Nat.ne_of_gt hBehind]

/-- What one more event brings about and what it leaves. -/
theorem lasts_append {begins ends : Event → Prop} {events : List Event} {e : Event} {place : Nat} :
    Lasts begins ends (events ++ [e]) place ↔
      place = events.length ∧ begins e ∨ Lasts begins ends events place ∧ ¬ends e := by
  have hInside : ∀ {place other}, events[place]? = some other → place < events.length :=
    fun hOther => (List.getElem?_eq_some_iff.1 hOther).1
  simp only [Lasts, getElem?_append_eq_some_iff]
  constructor
  · rintro ⟨⟨first, hFirst | ⟨rfl, rfl⟩, hBegins⟩, hLater⟩
    · refine .inr ⟨⟨⟨first, hFirst, hBegins⟩, fun later hMore other hOther => ?_⟩, ?_⟩
      · exact hLater later hMore other (.inl hOther)
      · exact hLater events.length (hInside hFirst) e (.inr ⟨rfl, rfl⟩)
    · exact .inl ⟨rfl, hBegins⟩
  · rintro (⟨rfl, hBegins⟩ | ⟨⟨⟨first, hFirst, hBegins⟩, hLater⟩, hNot⟩)
    · refine ⟨⟨e, .inr ⟨rfl, rfl⟩, hBegins⟩, fun later hMore other hOther => ?_⟩
      rcases hOther with hOther | ⟨rfl, -⟩
      · exact absurd (hInside hOther) (Nat.not_lt.2 (Nat.le_of_lt hMore))
      · exact absurd hMore (Nat.lt_irrefl _)
    · refine ⟨⟨first, .inl hFirst, hBegins⟩, fun later hMore other hOther => ?_⟩
      rcases hOther with hOther | ⟨-, rfl⟩
      · exact hLater later hMore other hOther
      · exact hNot

/-- An event of a sort lasts up to the end if it is the last one, or if one lasted before and the
last one did not end it. This is the step on which both facts on tables rest. -/
theorem exists_lasts_append {begins ends : Event → Prop} {events : List Event} {e : Event} :
    (∃ place, Lasts begins ends (events ++ [e]) place) ↔
      begins e ∨ (∃ place, Lasts begins ends events place) ∧ ¬ends e := by
  simp only [lasts_append, exists_or, exists_eq_left, exists_and_right]

/-- The object was stored at the handle by the event at this place, and nothing since then has ended
it. -/
def Live (events : List Event) (place handle : Nat) (object : Object) : Prop :=
  Lasts (· = .stored handle object) (Event.Ends handle) events place

/-- Since the table was last cleared an object was stored at the handle. -/
def Used (events : List Event) (handle : Nat) : Prop :=
  ∃ place, Lasts (fun e => ∃ object, e = .stored handle object) (· = .cleared) events place

section

variable (ops : List Operation)

/-- At a handle stands the object that was last stored there, if nothing has deleted it or
cleared the table since. The induction is on the operations from the end. -/
theorem select?_ofOperations (handle : Nat) (object : Object) :
    (ofOperations ops).select? handle = some object ↔
      ∃ place, Live (history empty ops) place handle object := by
  induction ops using List.reverseRecOn with
  | nil => simp [ofOperations, history, Live, Lasts]
  | append_singleton ops op ih =>
      rw [ofOperations_append, Event.select?_applyTo, ih, history_append]
      unfold Live
      rw [exists_lasts_append]
      rfl

/-- The table has a slot for each handle that was stored at since it was last cleared, and for
all handles below it. -/
theorem lt_size_ofOperations (n : Nat) :
    n < (ofOperations ops).slots.size ↔ ∃ handle, Used (history empty ops) handle ∧ n ≤ handle := by
  induction ops using List.reverseRecOn with
  | nil => simp [ofOperations, history, Used, Lasts, empty]
  | append_singleton ops op ih =>
      rw [ofOperations_append, Event.lt_size_applyTo, ih, history_append]
      simp only [Used, exists_lasts_append, or_and_right, exists_or]
      refine or_congr ?_ ?_
      · simp only [exists_and_right]
        rfl
      · simp only [← exists_and_right, and_right_comm]
        rfl

/-- There is one slot more than the greatest handle that was used. -/
theorem size_ofOperations :
    ((∀ handle, ¬Used (history empty ops) handle) ∧ (ofOperations ops).slots.size = 0) ∨
      ∃ handle, IsGreatest {handle | Used (history empty ops) handle} handle ∧
        (ofOperations ops).slots.size = handle + 1 := by
  have hSlots := lt_size_ofOperations ops
  have hBelow (handle : Nat) (hUsed : Used (history empty ops) handle) :
      handle < (ofOperations ops).slots.size :=
    (hSlots handle).2 ⟨handle, hUsed, Nat.le_refl handle⟩
  cases hSize : (ofOperations ops).slots.size with
  | zero =>
      refine .inl ⟨fun handle hUsed => ?_, rfl⟩
      exact Nat.not_lt_zero handle (hSize ▸ hBelow handle hUsed)
  | succ last =>
      obtain ⟨handle, hUsed, hLast⟩ := (hSlots last).1 (by omega)
      have hSame : handle = last := by
        have hInside := hBelow handle hUsed
        omega
      refine .inr ⟨last, ⟨hSame ▸ hUsed, fun other hOther => ?_⟩, rfl⟩
      have hInside := hBelow other hOther
      omega

/-- A handle has one live object at most. -/
theorem Live.unique {events : List Event} {first second handle : Nat} {object other : Object}
    (hFirst : Live events first handle object) (hSecond : Live events second handle other) :
    first = second ∧ object = other := by
  obtain ⟨⟨_, hStored, rfl⟩, hLater⟩ := hFirst
  obtain ⟨⟨_, hStored', rfl⟩, hLater'⟩ := hSecond
  rcases Nat.lt_trichotomy first second with hLess | rfl | hLess
  · exact absurd rfl (hLater second hLess _ hStored')
  · rw [hStored] at hStored'
    cases hStored'
    exact ⟨rfl, rfl⟩
  · exact absurd rfl (hLater' first hLess _ hStored)

end

/-- What is found in a table, the handles that it gives and the number of its slots follow from its
history. An operation changes what is found only at a handle that it stores at or deletes, unless it
clears the table. -/
theorem table_of_history (ops : List Operation) :
    let t := ofOperations ops
    let events := history empty ops
    (∀ handle object,
      t.select? handle = some object ↔ ∃ place, Live events place handle object) ∧
    (∀ op handle, t.given? op = some handle →
      IsLeast {free | t.select? free = none} handle ∧ handle ≤ t.slots.size ∧
      (∀ place object, ¬Live events place handle object) ∧
      ∃ object, t.event op = .stored handle object ∧
        (t.step op).select? handle = some object) ∧
    (∀ first second handle object other, Live events first handle object →
      Live events second handle other → first = second ∧ object = other) ∧
    (∀ op handle, ¬(t.event op).Ends handle → (t.step op).select? handle = t.select? handle) ∧
    (((∀ handle, ¬Used events handle) ∧ t.slots.size = 0) ∨
      ∃ handle, IsGreatest {handle | Used events handle} handle ∧ t.slots.size = handle + 1) ∧
    ∀ handle, (t.delete handle).slots.size = t.slots.size := by
  intro t events
  have hFound := select?_ofOperations ops
  refine ⟨hFound, ?_, fun _ _ _ _ _ => Live.unique, ?_, size_ofOperations ops, t.size_delete⟩
  · intro op handle hGiven
    obtain ⟨rfl, object, hEvent⟩ := event_of_given hGiven
    refine ⟨t.isLeast_nextHandle, t.nextHandle_le, fun place other hLive => ?_, object, hEvent, ?_⟩
    · have hFree := (hFound t.nextHandle other).2 ⟨place, hLive⟩
      rw [t.isLeast_nextHandle.1] at hFree
      cases hFree
    · rw [step_eq, Event.select?_applyTo]
      exact .inl hEvent
  · intro op handle hKept
    refine Option.ext fun object => ?_
    rw [step_eq, Event.select?_applyTo, and_iff_left hKept]
    refine or_iff_right fun hStored => hKept ?_
    rw [hStored]
    rfl

/-- A hole below an object that was stored behind the end of the table and deleted again. -/
theorem table_of_history_hole :
    let ops : List Operation := [.put 2 (.placeholder .palette), .createBrush 0 .white, .delete 2]
    let t := ofOperations ops
    t.given? (.createPen 0 1 .black) = some 1 ∧ IsLeast {free | t.select? free = none} 1 ∧
      (t.createPen 0 1 .black).select? 1 = some (.pen ⟨0, 1, .black⟩) ∧ t.slots.size = 3 := by
  intro ops t
  have hGiven : t.given? (.createPen 0 1 .black) = some 1 := by decide +kernel
  obtain ⟨hLeast, -, -, object, hEvent, hStored⟩ := (table_of_history ops).2.1 _ _ hGiven
  obtain ⟨-, rfl⟩ := Event.stored.inj hEvent
  exact ⟨hGiven, hLeast, hStored, by decide +kernel⟩

end Metafile.Gdi.ObjectTable
