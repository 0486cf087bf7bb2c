import Metafile.Proofs.Replay.Records

/-! What the summary of a replay counts. Each record is counted alone: what becomes of it
depends on its number, its flags and its payload, and not on the records around it. -/

namespace Metafile

instance : Add Summary where
  add a b := ⟨a.dispatched + b.dispatched, a.unhandled + b.unhandled, a.failed + b.failed⟩

namespace Summary

@[simp]
theorem add_ofOutcomes_nil (a : Summary) : a + ofOutcomes [] = a := rfl

theorem mk_add_mk (d u f d' u' f' : Nat) :
    (⟨d, u, f⟩ : Summary) + ⟨d', u', f'⟩ = ⟨d + d', u + u', f + f'⟩ := rfl

@[simp]
theorem nothing_add (a : Summary) : (⟨0, 0, 0⟩ : Summary) + a = a := by
  cases a
  simp only [mk_add_mk, Nat.zero_add]

theorem add_assoc (a b c : Summary) : a + b + c = a + (b + c) := by
  cases a
  cases b
  cases c
  simp only [mk_add_mk, Nat.add_assoc]

/-- Outcomes of two parts are counted apart and added. -/
theorem ofOutcomes_append (first second : List Outcome) :
    ofOutcomes (first ++ second) = ofOutcomes first + ofOutcomes second := by
  simp only [ofOutcomes, List.length_append, List.countP_append]
  rfl

/-- The order of outcomes does not matter for the counts. -/
theorem ofOutcomes_perm {first second : List Outcome} (hPerm : first.Perm second) :
    ofOutcomes first = ofOutcomes second := by
  simp only [ofOutcomes, hPerm.length_eq, hPerm.countP_eq]

end Summary

namespace Reading

variable {α : Type}

/-- A record that is read as a whole is done or fails. There is no third way, whatever is
read. -/
theorem outcome_ofExcept_ne (read : Except Fault (List α)) :
    (ofExcept read).outcome ≠ .unhandled := by
  cases read <;> simp [ofExcept]

theorem outcome_needing_ne (p : Bytes) (required : Nat) {rest : Reading α}
    (hRest : rest.outcome ≠ .unhandled) : (needing p required rest).outcome ≠ .unhandled := by
  unfold needing
  split
  · exact hRest
  · simp

end Reading

/-- The numbers of a format's own kinds of records. -/
def Format.codes : Format → List Nat
  | .emf => Emf.Kind.all.map Emf.Kind.code
  | .emfPlus => Plus.Kind.all.map Plus.Kind.code
  | _ => Wmf.Kind.all.map Wmf.Kind.code

/-- A code has no kind just if it stands for none in the table. -/
theorem Wmf.ofCode?_eq_none_iff {code : Nat} :
    Kind.ofCode? code = none ↔ code ∉ Kind.all.map Kind.code := by
  simp [Kind.ofCode?, List.find?_eq_none]

theorem Emf.ofCode?_eq_none_iff {code : Nat} :
    Kind.ofCode? code = none ↔ code ∉ Kind.all.map Kind.code := by
  simp [Kind.ofCode?, List.find?_eq_none]

theorem Plus.ofCode?_eq_none_iff {code : Nat} :
    Kind.ofCode? code = none ↔ code ∉ Kind.all.map Kind.code := by
  simp [Kind.ofCode?, List.find?_eq_none]

/-- A record is unhandled just if there is no kind for its opcode, of which WMF looks at the
lower word. Its payload plays no part in that. -/
theorem Wmf.outcome_eq_unhandled_iff {r : Record} :
    (reading r).outcome = .unhandled ↔ r.opcode % 0x10000 ∉ Kind.all.map Kind.code := by
  rw [← ofCode?_eq_none_iff, reading]
  cases Kind.ofCode? (r.opcode % 0x10000) with
  | none => simp [Reading.unhandled]
  | some kind => simp [Reading.outcome_ofExcept_ne]

/-- The opcode of an EMF record is looked at as a whole. -/
theorem Emf.outcome_eq_unhandled_iff {limit : Nat} {r : Record} :
    (reading limit r).outcome = .unhandled ↔ r.opcode ∉ Kind.all.map Kind.code := by
  rw [← ofCode?_eq_none_iff, reading]
  cases Kind.ofCode? r.opcode with
  | none => simp [Reading.unhandled]
  | some kind => simp [Reading.outcome_ofExcept_ne]

/-- A kind that EMF+ knows is never unhandled, whatever the flags and the payload are. -/
theorem Plus.outcome_actions_ne (kind : Kind) (f : Flags) (p : Bytes) :
    (actions kind f p).outcome ≠ .unhandled := by
  cases kind with
  | drawRects | drawLines =>
      apply Reading.outcome_needing_ne
      exact Reading.outcome_ofExcept_ne _
  | _ => exact Reading.outcome_ofExcept_ne _

/-- So its records are unhandled just if there is no kind for the lower word of the opcode. -/
theorem Plus.outcome_eq_unhandled_iff {r : Record} :
    (reading r).outcome = .unhandled ↔ r.opcode % 0x10000 ∉ Kind.all.map Kind.code := by
  rw [← ofCode?_eq_none_iff, reading]
  cases Kind.ofCode? (r.opcode % 0x10000) with
  | none => simp [Reading.unhandled]
  | some kind => simp [outcome_actions_ne]

namespace Format

variable {format : Format}

/-- What becomes of a record in a picture of a format. -/
def outcome (format : Format) (header : Header) (r : Record) : Outcome :=
  match format with
  | .emf => (Emf.reading header.handleLimit r).outcome
  | .emfPlus => (Plus.reading r).outcome
  | _ => (Wmf.reading r).outcome

/-- In every format the table of opcodes alone decides which records are unhandled. -/
theorem outcome_eq_unhandled_iff (header : Header) (r : Record) :
    format.outcome header r = .unhandled ↔ format.kindCode r.opcode ∉ format.codes := by
  cases format with
  | emf => exact Emf.outcome_eq_unhandled_iff
  | emfPlus => exact Plus.outcome_eq_unhandled_iff
  | placeableWmf | wmf | unknown => exact Wmf.outcome_eq_unhandled_iff

end Format

/-- A replay counts the outcomes of its records, each of them once. -/
theorem Replay.summary_ofRecords {σ α : Type} (setup : List Call) (m : Plotter σ α) (start : σ)
    (reading : Record → Reading α) (rs : List Record) :
    (ofRecords setup m start reading rs).summary =
      .ofOutcomes (rs.map fun r => (reading r).outcome) := by
  simp only [ofRecords, List.map_map]
  rfl

/-- The outcomes are those of the format with its header. -/
theorem Picture.summary_replay_eq_ofOutcomes {format : Format} (hFormat : format ≠ .unknown)
    (header : Header) (rs : List Record) (error : Option HeaderError) (o : Replay.Options) :
    (Picture.replay ⟨format, some header, rs, error⟩ o).summary =
      .ofOutcomes (rs.map (format.outcome header)) := by
  cases format with
  | unknown => exact absurd rfl hFormat
  | placeableWmf | wmf | emf | emfPlus => exact Replay.summary_ofRecords ..

end Metafile
