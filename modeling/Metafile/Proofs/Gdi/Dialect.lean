import Metafile.Proofs.Gdi.Effect
import Metafile.Proofs.Replay.Records

/-! WMF and EMF as dialects of one language. Their records are numbered, stored and
measured differently, but they ask for the same actions, and what is proved of all
dialects holds of the replays of both. -/

namespace Metafile

/-- What is read as a whole either asks for everything or for nothing. -/
theorem Reading.actions_ofExcept_of_not_done {α : Type} {read : Except Fault (List α)}
    (hOutcome : (ofExcept read).outcome ≠ .done) : (ofExcept read).actions = [] := by
  cases read with
  | error fault => rfl
  | ok actions => exact absurd rfl hOutcome

namespace Gdi

/-- What holds of all actions that can be read from a payload holds of those that were. -/
theorem Asks.of_mem {P : Action → Prop} {read : Except Fault (List Action)} {action : Action}
    (hAsks : Asks P read) (hMem : action ∈ (Reading.ofExcept read).actions) : P action := by
  cases read with
  | error fault => cases hMem
  | ok actions => exact hAsks actions rfl action hMem

/-- The kinds of the records of a format and what records of a kind ask for. Two of the
kinds save and restore the context, and no other kind does. -/
structure Dialect where
  Kind : Type
  kind? : Record → Option Kind
  actions : Kind → Bytes → Except Fault (List Action)
  effect : Kind → Effect
  saveDc : Kind
  restoreDc : Kind
  /-- The bytes of the level in a record that restores the context. -/
  levelSize : Nat
  level : Bytes → Int
  yields : ∀ kind p, Yields (effect kind) (actions kind p)
  eq_of_context : ∀ kind, effect kind = .context → kind = saveDc ∨ kind = restoreDc
  actions_saveDc : ∀ p, actions saveDc p = .ok [.saveContext]
  actions_restoreDc : ∀ p,
    actions restoreDc p = (p.need levelSize).map fun _ => [.restoreContext (level p)]

namespace Dialect

variable (d : Dialect)

def reading (r : Record) : Reading Action :=
  match d.kind? r with
  | none => .unhandled
  | some kind => .ofExcept (d.actions kind r.payload)

/-- What a record is about. Without a kind it is about nothing. -/
def effectOf (r : Record) : Effect :=
  match d.kind? r with
  | none => .nothing
  | some kind => d.effect kind

/-- The record saves the context. -/
def Saves (r : Record) : Prop := d.kind? r = some d.saveDc

/-- The record restores the context of the given level. -/
def Restores (r : Record) (level : Int) : Prop :=
  d.kind? r = some d.restoreDc ∧ d.levelSize ≤ r.payload.size ∧ d.level r.payload = level

/-- The session behind records. -/
def after (s : Session) (rs : List Record) : Session := Session.plotter.after d.reading s rs

/-- What records draw. -/
def drawn (s : Session) (rs : List Record) : List Call := Session.plotter.drawn d.reading s rs

/-- Records may be cut into two parts anywhere: the second part starts in the session that the
first one leaves. -/
theorem after_append (s : Session) (first second : List Record) :
    d.after s (first ++ second) = d.after (d.after s first) second :=
  Plotter.after_append ..

/-- And it draws there what it draws behind the first part. Nothing else is passed on between
them. -/
theorem drawn_append (s : Session) (first second : List Record) :
    d.drawn s (first ++ second) = d.drawn s first ++ d.drawn (d.after s first) second :=
  Plotter.drawn_append ..

/-- The first of several records leaves the session that the others find. -/
theorem after_cons (s : Session) (r : Record) (rs : List Record) :
    d.after s (r :: rs) = d.after (Session.plotter.run s (d.reading r).actions) rs :=
  Plotter.after_cons ..

variable {d}

/-- All actions of a record are about the same, and the kind of the record tells what. -/
theorem effect_eq {r : Record} {action : Action} (hMem : action ∈ (d.reading r).actions) :
    action.effect = d.effectOf r := by
  unfold reading effectOf at *
  cases hKind : d.kind? r with
  | none =>
      rw [hKind] at hMem
      cases hMem
  | some kind =>
      rw [hKind] at hMem
      exact (yields_iff_asks.1 (d.yields kind r.payload)).of_mem hMem

/-- A record that fails asks for nothing, and neither does one without a kind. -/
theorem actions_of_not_done {r : Record} (hOutcome : (d.reading r).outcome ≠ .done) :
    (d.reading r).actions = [] := by
  unfold reading at *
  cases hKind : d.kind? r with
  | none => rfl
  | some kind =>
      rw [hKind] at hOutcome
      exact Reading.actions_ofExcept_of_not_done hOutcome

section

variable {α : Type} {r : Record} {kind : d.Kind} {read : Except Fault α} {asked : α → List Action}

/-- A record asks for what is made of the values that are read from its payload. -/
theorem reading_of_ok (hKind : d.kind? r = some kind)
    (hActions : d.actions kind r.payload = read.map asked) {value : α} (hRead : read = .ok value) :
    d.reading r = ⟨asked value, .done⟩ := by
  rw [reading, hKind]
  dsimp only
  rw [hActions, hRead]
  rfl

/-- If there are no such values, the record fails with the fault of the first of them and asks
for nothing. -/
theorem reading_of_error (hKind : d.kind? r = some kind)
    (hActions : d.actions kind r.payload = read.map asked) {fault : Fault}
    (hRead : read = .error fault) : d.reading r = ⟨[], .failed fault⟩ := by
  rw [reading, hKind]
  dsimp only
  rw [hActions, hRead]
  rfl

theorem refuses_iff (hKind : d.kind? r = some kind)
    (hActions : d.actions kind r.payload = read.map asked) :
    Session.plotter.Refuses d.reading r ↔ ∀ value, read ≠ .ok value := by
  have hReading : d.reading r = .ofExcept (read.map asked) := by
    rw [reading, hKind, ← hActions]
  exact Plotter.refuses_iff_of_reading hReading

/-- A record of a known kind fails just if its payload cannot be read. What it asks for cannot
fail any more. -/
theorem failed_iff (hKind : d.kind? r = some kind)
    (hActions : d.actions kind r.payload = read.map asked) :
    (∃ fault, (d.reading r).outcome = .failed fault) ↔ ∀ value, read ≠ .ok value := by
  cases hRead : read with
  | error fault =>
      rw [reading_of_error hKind hActions hRead]
      exact ⟨fun _ => nofun, fun _ => ⟨fault, rfl⟩⟩
  | ok value =>
      rw [reading_of_ok hKind hActions hRead]
      exact ⟨nofun, fun hNone => absurd rfl (hNone value)⟩

end

/-- What the kinds of records ask for is asked for by the records. -/
theorem of_mem_actionsOf {P : Action → Prop} {Q : d.Kind → Prop}
    (hAsks : ∀ kind p, Q kind → Asks P (d.actions kind p)) {rs : List Record}
    (hRecords : ∀ r ∈ rs, ∀ kind ∈ d.kind? r, Q kind) :
    ∀ action ∈ actionsOf d.reading rs, P action := by
  intro action hMem
  obtain ⟨r, hRecord, hAction⟩ := List.mem_flatMap.1 hMem
  rw [reading] at hAction
  cases hKind : d.kind? r with
  | none =>
      rw [hKind] at hAction
      cases hAction
  | some kind =>
      rw [hKind] at hAction
      exact (hAsks kind r.payload (hRecords r hRecord kind hKind)).of_mem hAction

/-- A record that saves the context asks for this alone. -/
theorem actions_of_saves {r : Record} (hSaves : d.Saves r) :
    (d.reading r).actions = [.saveContext] := by
  rw [reading, hSaves]
  dsimp only
  rw [d.actions_saveDc]
  rfl

/-- A record that restores a context asks for this alone, with the level that its payload gives. -/
theorem actions_of_restores {r : Record} {level : Int} (hRestores : d.Restores r level) :
    (d.reading r).actions = [.restoreContext level] := by
  obtain ⟨hKind, hSize, rfl⟩ := hRestores
  rw [reading, hKind]
  dsimp only
  rw [d.actions_restoreDc, Bytes.need_eq_ok_iff.2 hSize]
  rfl

/-- A record about the context asks for at most one action. -/
theorem actions_of_context {r : Record} (hContext : d.effectOf r = .context) :
    (d.reading r).actions = [] ∨ ∃ action, (d.reading r).actions = [action] := by
  unfold reading effectOf at *
  cases hKind : d.kind? r with
  | none => exact .inl rfl
  | some kind =>
      rw [hKind] at hContext
      dsimp only
      rcases d.eq_of_context kind hContext with rfl | rfl
      · rw [d.actions_saveDc]
        exact .inr ⟨_, rfl⟩
      · rw [d.actions_restoreDc]
        cases r.payload.need d.levelSize with
        | error fault => exact .inl rfl
        | ok _ => exact .inr ⟨_, rfl⟩

end Dialect

end Gdi

open Gdi

def Wmf.dialect : Dialect where
  Kind := Wmf.Kind
  kind? r := Kind.ofCode? (r.opcode % 0x10000)
  actions := actions
  effect := Kind.effect
  saveDc := .saveDc
  restoreDc := .restoreDc
  levelSize := 2
  level p := p.i16At 0
  yields := yields_actions
  eq_of_context kind hContext := by
    cases kind <;> simp [Kind.effect] at hContext ⊢
  actions_saveDc p := rfl
  actions_restoreDc p := rfl

/-- EMF with a bound on the handles of objects. -/
def Emf.dialect (limit : Nat) : Dialect where
  Kind := Emf.Kind
  kind? r := Kind.ofCode? r.opcode
  actions := actions limit
  effect := Kind.effect
  saveDc := .saveDc
  restoreDc := .restoreDc
  levelSize := 4
  level p := p.i32At 0
  yields := yields_actions limit
  eq_of_context kind hContext := by
    cases kind <;> simp [Kind.effect] at hContext ⊢
  actions_saveDc p := rfl
  actions_restoreDc p := rfl

/-- The dialect reads a record as the format does, so that whatever is proved of all dialects
holds of it. -/
theorem Wmf.reading_dialect : Wmf.dialect.reading = Wmf.reading := by
  funext r
  unfold Dialect.reading Wmf.reading
  cases hKind : Kind.ofCode? (r.opcode % 0x10000) <;> simp [dialect, hKind]

theorem Emf.reading_dialect (limit : Nat) : (Emf.dialect limit).reading = Emf.reading limit := by
  funext r
  unfold Dialect.reading Emf.reading
  cases hKind : Kind.ofCode? r.opcode <;> simp [dialect, hKind]

namespace Format

/-- The formats whose records ask for `Gdi.Action`s. -/
def isGdi : Format → Bool
  | placeableWmf | wmf | emf => true
  | emfPlus | unknown => false

/-- The dialect of such a format. -/
def dialect (format : Format) (header : Header) : Dialect :=
  match format with
  | emf => Emf.dialect header.handleLimit
  | _ => Wmf.dialect

end Format

/-- A replay in one of the formats prepares the surface and then draws what the records
draw in its dialect. -/
theorem Picture.calls_replay_of_isGdi {format : Format} (hFormat : format.isGdi) (header : Header)
    (rs : List Record) (error : Option HeaderError) (o : Replay.Options) :
    (Picture.replay ⟨format, some header, rs, error⟩ o).calls =
      o.setup header ++ (format.dialect header).drawn (.initial header.initialMap) rs := by
  cases format with
  | placeableWmf | wmf =>
      simp only [Picture.replay, Replay.calls_ofRecords, Dialect.drawn, Format.dialect,
        Wmf.reading_dialect]
  | emf =>
      simp only [Picture.replay, Replay.calls_ofRecords, Dialect.drawn, Format.dialect,
        Emf.reading_dialect]
  | emfPlus | unknown => cases hFormat

end Metafile
