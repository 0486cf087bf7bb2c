import Metafile.Proofs.Gdi.Dialect

/-! EMF+ records that fail. They leave the session as it is, and most of them draw nothing.
Only records that draw with a pen set its style before they read their shape, and the style
stays set if the shape cannot be read. -/

namespace Metafile

/-- The call sets how shapes are drawn and draws nothing itself. -/
def Call.setsStyle : Call → Bool
  | setStrokeColor _ | setFillColor _ | setLineWidth _ => true
  | _ => false

def Outcome.isFailed : Outcome → Bool
  | .failed _ => true
  | _ => false

namespace Reading

variable {α : Type} {p : Bytes} {required : Nat} {first : List α} {read : Except Fault (List α)}

/-- A record that is read as a whole asks for nothing if it fails. -/
theorem actions_ofExcept_of_failed (hFailed : (ofExcept read).outcome.isFailed = true) :
    (ofExcept read).actions = [] := by
  refine actions_ofExcept_of_not_done ?_
  intro hDone
  rw [hDone] at hFailed
  cases hFailed

/-- What comes before the rest of a record is done though the rest fails. -/
theorem actions_after_of_failed (hFailed : (after first (ofExcept read)).outcome.isFailed = true) :
    (after first (ofExcept read)).actions = first := by
  show first ++ (ofExcept read).actions = first
  rw [actions_ofExcept_of_failed hFailed, List.append_nil]

/-- Behind a check of the size a failed record asks for what comes before its fault, and for
nothing if it does not pass the check. -/
theorem actions_needing_of_failed {rest : Reading α}
    (hRest : rest.outcome.isFailed = true → rest.actions = first)
    (hFailed : (needing p required rest).outcome.isFailed = true) :
    (needing p required rest).actions = if required ≤ p.size then first else [] := by
  unfold needing Bytes.need at *
  by_cases hShort : p.size < required
  · rw [if_pos hShort, if_neg (by omega)]
  · rw [if_neg hShort] at hFailed ⊢
    rw [if_pos (by omega)]
    exact hRest hFailed

end Reading

namespace Plus

/-- The record cannot be carried out. -/
def fails (r : Record) : Bool := (reading r).outcome.isFailed

/-- What a record of a kind does before it reads its shape. -/
def Kind.early (kind : Kind) (f : Flags) (p : Bytes) : List Action :=
  match kind with
  | .drawRects | .drawLines => if 4 ≤ p.size then [.strokeWith f.handle] else []
  | .drawEllipse => [.strokeWith f.handle, .fillWithNothing]
  | _ => []

def early (r : Record) : List Action :=
  match Kind.ofCode? (r.opcode % 0x10000) with
  | none => []
  | some kind => kind.early ⟨r.flags⟩ r.payload

/-- A record that fails has done no more than comes before its shape. -/
theorem actions_of_failed {kind : Kind} {f : Flags} {p : Bytes}
    (hFailed : (actions kind f p).outcome.isFailed = true) :
    (actions kind f p).actions = kind.early f p := by
  cases kind with
  | drawRects | drawLines =>
      exact Reading.actions_needing_of_failed Reading.actions_after_of_failed hFailed
  | drawEllipse => exact Reading.actions_after_of_failed hFailed
  | _ => exact Reading.actions_ofExcept_of_failed hFailed

/-- So a failed record has asked for its early actions and for no others. -/
theorem actions_eq_early {r : Record} (hFails : fails r = true) :
    (reading r).actions = early r := by
  unfold fails reading early at *
  cases hKind : Kind.ofCode? (r.opcode % 0x10000) with
  | none =>
      rw [hKind] at hFails
      cases hFails
  | some kind =>
      rw [hKind] at hFails
      exact actions_of_failed hFails

namespace Session

variable (s : Session)

theorem setsStyle_penCalls (handle : Nat) : ∀ call ∈ s.penCalls handle, call.setsStyle = true := by
  unfold penCalls
  split <;> simp [Call.setsStyle]

/-- Taking up a pen is seen by the surface, even if there is no such pen. So a failed record is
not always without a trace. -/
theorem penCalls_ne_nil (handle : Nat) : s.penCalls handle ≠ [] := by
  unfold penCalls
  split <;> simp

/-- Setting a style changes nothing in the session. It is done by calls that set the style of
the surface, and by at least one. -/
theorem of_mem_early {r : Record} {action : Action} (hMem : action ∈ early r) :
    s.step action = s ∧ s.draw action ≠ [] ∧ ∀ call ∈ s.draw action, call.setsStyle = true := by
  have hStyle : (∃ pen, action = .strokeWith pen) ∨ action = .fillWithNothing := by
    unfold early Kind.early at hMem
    grind
  rcases hStyle with ⟨pen, rfl⟩ | rfl
  · exact ⟨rfl, s.penCalls_ne_nil pen, s.setsStyle_penCalls pen⟩
  · refine ⟨rfl, nofun, ?_⟩
    intro call hCall
    rw [List.mem_singleton.1 hCall]
    rfl

/-- Actions that leave the session alone draw what each of them draws by itself. -/
theorem trace_of_still {actions : List Action} (hStill : ∀ action ∈ actions, s.step action = s) :
    plotter.run s actions = s ∧ plotter.calls s actions = actions.flatMap s.draw := by
  induction actions with
  | nil => exact ⟨rfl, rfl⟩
  | cons action rest ih =>
      obtain ⟨hFirst, hRest⟩ := List.forall_mem_cons.1 hStill
      obtain ⟨hRun, hCalls⟩ := ih hRest
      refine ⟨?_, ?_⟩
      · show plotter.run (s.step action) rest = s
        rw [hFirst, hRun]
      · show s.draw action ++ plotter.calls (s.step action) rest = _
        rw [hFirst, hCalls, List.flatMap_cons]

/-- The calls that a record makes before it reads its shape. -/
def earlyCalls (r : Record) : List Call := (early r).flatMap s.draw

/-- A failed record makes no calls just if it asks for no early action. -/
theorem earlyCalls_eq_nil_iff {r : Record} : s.earlyCalls r = [] ↔ early r = [] := by
  constructor
  · intro hNone
    refine List.eq_nil_iff_forall_not_mem.2 ?_
    intro action hMem
    exact (s.of_mem_early hMem).2.1 (List.flatMap_eq_nil_iff.1 hNone action hMem)
  · intro hEarly
    rw [earlyCalls, hEarly]
    rfl

theorem setsStyle_earlyCalls {r : Record} : ∀ call ∈ s.earlyCalls r, call.setsStyle = true := by
  intro call hCall
  obtain ⟨action, hMem, hDraw⟩ := List.mem_flatMap.1 hCall
  exact (s.of_mem_early hMem).2.2 call hDraw

/-- A record that fails changes nothing and draws nothing. At most it sets a style. -/
theorem trace_of_fails {r : Record} (hFails : fails r = true) :
    plotter.run s (reading r).actions = s ∧
      plotter.calls s (reading r).actions = s.earlyCalls r := by
  rw [actions_eq_early hFails]
  exact s.trace_of_still fun action hMem => (s.of_mem_early hMem).1

/-- Without the records that fail, a list of records leads to the same session and makes the
same calls but for the styles that are set in vain. -/
theorem drawn_filter_fails (rs : List Record) :
    let kept := rs.filter fun r => !fails r
    plotter.after reading s kept = plotter.after reading s rs ∧
      (plotter.drawn reading s kept).Sublist (plotter.drawn reading s rs) ∧
      (plotter.drawn reading s kept).filter (fun call => !call.setsStyle) =
        (plotter.drawn reading s rs).filter (fun call => !call.setsStyle) ∧
      (plotter.drawn reading s kept = plotter.drawn reading s rs ↔
        ∀ r ∈ rs, fails r = true → early r = []) := by
  induction rs generalizing s with
  | nil => exact ⟨rfl, .slnil, rfl, by simp⟩
  | cons r rest ih =>
      cases hFails : fails r with
      | true =>
          obtain ⟨hRun, hCalls⟩ := s.trace_of_fails hFails
          obtain ⟨hAfter, hSublist, hFilter, hSame⟩ := ih s
          simp only [List.filter_cons, hFails, Bool.not_true, Bool.false_eq_true, if_false,
            Plotter.after_cons, Plotter.drawn_cons, hRun, hCalls]
          have hSilent : (s.earlyCalls r).filter (fun call => !call.setsStyle) = [] := by
            refine List.filter_eq_nil_iff.2 fun call hCall => ?_
            simp [s.setsStyle_earlyCalls call hCall]
          refine ⟨hAfter, hSublist.trans (List.sublist_append_right ..), ?_, ?_⟩
          · rw [List.filter_append, hSilent, List.nil_append, hFilter]
          · rw [List.forall_mem_cons, ← hSame, ← s.earlyCalls_eq_nil_iff]
            constructor
            · intro hEqual
              -- The calls of `r` would be too many for a list that is part of the others.
              have hNone : s.earlyCalls r = [] := by
                have hLength := congrArg List.length hEqual
                rw [List.length_append] at hLength
                have hLe := hSublist.length_le
                exact List.eq_nil_of_length_eq_zero (by omega)
              rw [hNone, List.nil_append] at hEqual
              exact ⟨fun _ => hNone, hEqual⟩
            · rintro ⟨hEarly, hEqual⟩
              rw [hEarly hFails, List.nil_append, hEqual]
      | false =>
          obtain ⟨hAfter, hSublist, hFilter, hSame⟩ := ih (plotter.run s (reading r).actions)
          simp only [List.filter_cons, hFails, Bool.not_false, if_true, Plotter.after_cons,
            Plotter.drawn_cons]
          refine ⟨hAfter, hSublist.append_left _, ?_, ?_⟩
          · rw [List.filter_append, List.filter_append, hFilter]
          · rw [List.append_cancel_left_eq, hSame, List.forall_mem_cons]
            simp [hFails]

end Session

end Plus

/-- An EMF+ record that fails leaves every session as it is and makes no calls but those that
set the style of a pen before the shape is read. So without the records that fail a picture is
drawn by the same calls in the same order, apart from some that set a style, and by all the
same calls exactly if no record that fails has set one. -/
theorem Picture.calls_replay_filter_fails (header : Header) (rs : List Record)
    (error : Option HeaderError) (o : Replay.Options) :
    let kept := rs.filter fun r => !Plus.fails r
    let calls := (Picture.replay ⟨.emfPlus, some header, rs, error⟩ o).calls
    let callsKept := (Picture.replay ⟨.emfPlus, some header, kept, error⟩ o).calls
    (∀ (s : Plus.Session) (r : Record), Plus.fails r = true →
      Plus.Session.plotter.after Plus.reading s [r] = s ∧
        Plus.Session.plotter.drawn Plus.reading s [r] = s.earlyCalls r ∧
        (s.earlyCalls r = [] ↔ Plus.early r = []) ∧
        ∀ call ∈ s.earlyCalls r, call.setsStyle = true) ∧
      callsKept.Sublist calls ∧
      callsKept.filter (fun call => !call.setsStyle) =
        calls.filter (fun call => !call.setsStyle) ∧
      (callsKept = calls ↔ ∀ r ∈ rs, Plus.fails r = true → Plus.early r = []) := by
  intro kept calls callsKept
  obtain ⟨-, hSublist, hFilter, hSame⟩ := Plus.Session.initial.drawn_filter_fails rs
  have hCalls : calls =
      o.setup header ++ Plus.Session.plotter.drawn Plus.reading .initial rs :=
    Replay.calls_ofRecords ..
  have hKept : callsKept =
      o.setup header ++ Plus.Session.plotter.drawn Plus.reading .initial kept :=
    Replay.calls_ofRecords ..
  refine ⟨?_, ?_, ?_, ?_⟩
  · intro s r hFails
    obtain ⟨hRun, hDrawn⟩ := s.trace_of_fails hFails
    rw [Plotter.after_cons, Plotter.drawn_cons, hRun, hDrawn]
    exact ⟨rfl, List.append_nil _, s.earlyCalls_eq_nil_iff, s.setsStyle_earlyCalls⟩
  · rw [hCalls, hKept]
    exact hSublist.append_left _
  · rw [hCalls, hKept, List.filter_append, List.filter_append, hFilter]
  · rw [hCalls, hKept, List.append_cancel_left_eq, hSame]

/-- A picture of rectangles whose number is there and nothing else. They fail, but thin black
lines stay set. -/
theorem calls_truncatedRects :
    let header : Header := .emf ⟨1, 88, ⟨0, 0, 99, 49⟩, ⟨0, 0, 0, 0⟩, Emf.Header.expectedSignature,
      0x10000, 148, 3, 1, 0, 0, 0, 0, ⟨1024, 768⟩, ⟨320, 240⟩⟩
    let r : Record := ⟨0x400B, 16, 0, 28, #[40, 0, 0, 0]⟩
    let kept := [r].filter fun r => !Plus.fails r
    let setup : List Call := [.setSize ⟨100, 50⟩, .fillBackground .white]
    Plus.fails r = true ∧
      (Picture.replay ⟨.emfPlus, some header, [r], none⟩ .standard).calls =
        setup ++ [.setStrokeColor .black, .setLineWidth 1] ∧
      (Picture.replay ⟨.emfPlus, some header, kept, none⟩ .standard).calls = setup := by
  decide +kernel

end Metafile
