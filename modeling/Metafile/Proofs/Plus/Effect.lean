import Metafile.Proofs.Replay.Records

/-! What EMF+ records can do at all. The kind of a record tells which part of a session its
actions are about, and the other parts stay as they are. -/

namespace Metafile

namespace Reading

variable {α β : Type} {P : α → Prop}

/-- All actions of a reading have a property. -/
def Asks (P : α → Prop) (reading : Reading α) : Prop := ∀ action ∈ reading.actions, P action

@[simp]
theorem asks_pure {actions : List α} :
    Asks P (ofExcept (pure actions)) ↔ ∀ action ∈ actions, P action := Iff.rfl

@[simp]
theorem asks_ok {actions : List α} :
    Asks P (ofExcept (.ok actions)) ↔ ∀ action ∈ actions, P action := Iff.rfl

/-- A value that is read first stands for all values that can be read. -/
@[simp]
theorem asks_bind {read : Except Fault β} {rest : β → Except Fault (List α)} :
    Asks P (ofExcept (read >>= rest)) ↔
      ∀ value, read = .ok value → Asks P (ofExcept (rest value)) := by
  cases read with
  | error fault => simp [Asks, ofExcept, bind, Except.bind]
  | ok value => simp [bind, Except.bind]

/-- What is asked for early counts as well as the rest. -/
@[simp]
theorem asks_after {first : List α} {rest : Reading α} :
    Asks P (after first rest) ↔ (∀ action ∈ first, P action) ∧ Asks P rest :=
  List.forall_mem_append

/-- A check of the size of the payload asks for nothing. -/
theorem asks_needing {p : Bytes} {required : Nat} {rest : Reading α} (hRest : Asks P rest) :
    Asks P (needing p required rest) := by
  unfold needing
  split
  · exact hRest
  · exact nofun

end Reading

namespace Plus

/-- What an action is about, or all the actions of a record. -/
inductive Effect where
  /-- Nothing is changed and nothing drawn. -/
  | nothing
  /-- An object is stored. -/
  | objects
  | transform
  /-- A transform is put aside or brought back. -/
  | stack
  | drawing
deriving Repr, DecidableEq

def Action.effect : Action → Effect
  | .define _ _ => .objects
  | .save _ | .restore _ => .stack
  | .setTransform _ | .multiply _ _ => .transform
  | .clear _ | .fillWith _ | .fillWithNothing | .strokeWith _ | .strokeWithNothing | .fillBoxes _
  | .strokeBoxes _ | .polygon _ | .polyline _ | .ellipse _ | .text _ _ => .drawing

/-- What the records of a kind are about. -/
def Kind.effect : Kind → Effect
  | .object => .objects
  | .save | .restore => .stack
  | .setWorldTransform | .resetWorldTransform | .multiplyWorldTransform
  | .translateWorldTransform | .scaleWorldTransform | .rotateWorldTransform => .transform
  | .clear | .fillRects | .drawRects | .fillPolygon | .drawLines | .fillEllipse | .drawEllipse
  | .drawString => .drawing
  | _ => .nothing

/-- A string record asks for its brush and its text and for nothing else. -/
theorem asks_drawString {P : Action → Prop} (hFill : ∀ brush, P (.fillWith brush))
    (hText : ∀ text point, P (.text text point)) (f : Flags) (p : Bytes) :
    Reading.Asks P (.ofExcept (drawString f p)) := by
  refine Reading.asks_bind.2 fun _ _ => ?_
  dsimp only
  split
  · exact nofun
  · split
    · exact nofun
    · simp [hFill, hText]

/-- The records of a kind ask only for what the kind is about. -/
theorem asks_effect (kind : Kind) (f : Flags) (p : Bytes) :
    Reading.Asks (fun action => action.effect = kind.effect) (actions kind f p) := by
  cases kind with
  | drawString => exact asks_drawString (fun _ => rfl) (fun _ _ => rfl) f p
  | drawRects | drawLines =>
      refine Reading.asks_needing (Reading.asks_after.2 ⟨List.forall_mem_singleton.2 rfl, ?_⟩)
      simp only [Reading.asks_bind, Reading.asks_pure, List.forall_mem_singleton]
      exact fun _ _ => rfl
  -- With the effects among its lemmas `simp` would unfold the one in the property first.
  | _ =>
      simp only [actions, Reading.asks_bind, Reading.asks_pure, Reading.asks_ok,
        Reading.asks_after, List.forall_mem_cons, List.not_mem_nil, false_implies, implies_true,
        and_true] <;>
      simp [Action.effect, Kind.effect]

/-- All actions of a record are about the same, and the kind of the record tells what. -/
theorem effect_of_mem {r : Record} {action : Action} (hMem : action ∈ (reading r).actions) :
    ∃ kind, Kind.ofCode? (r.opcode % 0x10000) = some kind ∧ action.effect = kind.effect := by
  unfold reading at hMem
  cases hKind : Kind.ofCode? (r.opcode % 0x10000) with
  | none =>
      rw [hKind] at hMem
      cases hMem
  | some kind =>
      rw [hKind] at hMem
      exact ⟨kind, rfl, asks_effect kind _ _ action hMem⟩

namespace Session

variable {s : Session} {action : Action}

/-- An action that is not about objects leaves the table alone. The next lemma says the same of
the saved transforms. -/
theorem objects_step (hEffect : action.effect ≠ .objects) :
    (s.step action).objects = s.objects := by
  cases action with
  | define _ _ => exact absurd rfl hEffect
  | restore index =>
      unfold step
      dsimp only
      split <;> rfl
  | _ => rfl

theorem saved_step (hEffect : action.effect ≠ .stack) : (s.step action).saved = s.saved := by
  cases action with
  | save _ | restore _ => exact absurd rfl hEffect
  | _ => rfl

end Session

/-- The session behind records. -/
def after (s : Session) (rs : List Record) : Session := Session.plotter.after reading s rs

/-- What records draw. -/
def drawn (s : Session) (rs : List Record) : List Call := Session.plotter.drawn reading s rs

section

variable (s : Session)

/-- Records may be cut into two parts anywhere: the second part starts in the session that the
first one leaves. -/
theorem after_append (first second : List Record) :
    after s (first ++ second) = after (after s first) second :=
  Plotter.after_append ..

theorem drawn_append (first second : List Record) :
    drawn s (first ++ second) = drawn s first ++ drawn (after s first) second :=
  Plotter.drawn_append ..

/-- The first of several records leaves the session that the others find. -/
theorem after_cons (r : Record) (rs : List Record) :
    after s (r :: rs) = after (Session.plotter.run s (reading r).actions) rs :=
  Plotter.after_cons ..

end

end Plus

end Metafile
