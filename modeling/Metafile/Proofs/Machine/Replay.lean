import Metafile.Proofs.Gdi.Dialect
import Metafile.Proofs.Machine.Decode
import Metafile.Proofs.Machine.Reading.Emf
import Metafile.Proofs.Machine.Reading.Plus
import Metafile.Proofs.Machine.Reading.Wmf
import Metafile.Proofs.Machine.Session
import Metafile.Proofs.Replay.Summary
import Metafile.Proofs.Replay.Tables

/-! Replaying on the machine. A session that is reached by records holds no more saved contexts
than there were records, and what records ask for has numbers of the size of their fields, so
that no replay of a picture that the machine can hold stops. -/

namespace Metafile

open Gdi

namespace Wmf

/-- The numbers that a record asks for are fields of it. -/
theorem asks_fits (kind : Kind) (p : Bytes) : Asks Action.Fits (actions kind p) := by
  cases kind with
  | setWindowExt | setViewportExt =>
      exact asks_bind.2 fun _ _ => asks_singleton.2 ⟨p.isHalf_i16At _, p.isHalf_i16At _⟩
  | scaleWindowExt | scaleViewportExt =>
      exact asks_bind.2 fun _ _ => asks_singleton.2
        ⟨⟨p.isHalf_i16At _, p.isHalf_i16At _⟩, p.isHalf_i16At _, p.isHalf_i16At _⟩
  | restoreDc => exact asks_bind.2 fun _ _ => asks_singleton.2 (p.isHalf_i16At 0)
  | textOut => exact asks_textOut (fun _ _ => trivial) p
  | extTextOut => exact asks_extTextOut (fun _ _ => trivial) p
  | _ => simp only [actions, asks_bind, asks_nil, asks_singleton, asks_map] <;> intros <;> trivial

end Wmf

namespace Emf

/-- There are fewer points in a record than a double word can count. -/
theorem length_points_lt {l : Layout (Point Float)} {p : Bytes} {points : List (Point Float)}
    (hRead : Emf.points l p = .ok points) : points.length < 2 ^ 32 := by
  obtain ⟨_, -, hRead⟩ := bind_eq_ok_iff.1 hRead
  obtain ⟨_, -, hRead⟩ := bind_eq_ok_iff.1 hRead
  obtain rfl := Except.ok.inj hRead
  rw [Layout.length_list]
  exact Bytes.field_lt p boundsSize 4

/-- The numbers that an EMF record asks for are fields of it as well. -/
theorem asks_fits (limit : Nat) (kind : Kind) (p : Bytes) :
    Asks Action.Fits (actions limit kind p) := by
  cases kind with
  | setWindowExtEx | setViewportExtEx =>
      exact asks_bind.2 fun _ _ => asks_singleton.2 ⟨p.isHalf_i32At _, p.isHalf_i32At _⟩
  | scaleWindowExtEx | scaleViewportExtEx =>
      exact asks_bind.2 fun _ _ => asks_singleton.2
        ⟨⟨p.isHalf_i32At _, p.isHalf_i32At _⟩, p.isHalf_i32At _, p.isHalf_i32At _⟩
  | restoreDc => exact asks_bind.2 fun _ _ => asks_singleton.2 (p.isHalf_i32At 0)
  | createPen | extCreatePen | createBrushIndirect | extCreateFontIndirectW | createMonoBrush
  | createDibPatternBrushPt | createPalette | createColorSpace | createColorSpaceW =>
      exact asks_bind.2 fun _ _ => asks_storing fun _ => Bytes.field_lt p 0 4
  | polyLineTo | polyLineTo16 | polyBezierTo | polyBezierTo16 =>
      exact asks_bind.2 fun _ hRead => asks_singleton.2 (length_points_lt hRead)
  | polyBezier | polyBezier16 => exact asks_bezier (fun _ => trivial) _
  | extTextOutA | extTextOutW => exact asks_extTextOut (fun _ _ => trivial) _ p
  | _ => simp only [actions, asks_bind, asks_nil, asks_singleton, asks_map] <;> intros <;> trivial

end Emf

theorem Header.fits_initialMap (header : Header) : header.initialMap.Fits := by
  cases header with
  | emf header => exact CoordinateMap.fits_initial
  | wmf header =>
      simp only [initialMap]
      cases header.placeable with
      | none => exact CoordinateMap.fits_initial
      | some placeable =>
          exact ⟨CoordinateMap.fits_initial.window, CoordinateMap.fits_initial.viewport⟩

namespace Machine

open Word

/-- A machine that draws, like `Metafile.Plotter`, unless it stops. -/
structure Plotter (σ α : Type) where
  step : σ → α → Option σ
  draw : σ → α → Option (List Call)

variable {σ α : Type}

namespace Plotter

/-- The state behind a sequence of actions and what they draw. -/
def play (m : Plotter σ α) : σ → List α → Option (σ × List Call)
  | s, [] => some (s, [])
  | s, action :: rest => do
    let calls ← m.draw s action
    let (last, later) ← m.play (← m.step s action) rest
    return (last, calls ++ later)

/-- The machine does to a state what an action is to do to it. -/
structure Follows (m : Plotter σ α) (n : Metafile.Plotter σ α) (s : σ) (action : α) : Prop where
  step : m.step s action = some (n.step s action)
  draw : m.draw s action = some (n.draw s action)

variable {m : Plotter σ α} {n : Metafile.Plotter σ α}

/-- If every action is carried out from states that are ready and leaves one that is, so is any
sequence of actions. The induction is on the actions with the state generalized. -/
theorem play_eq {Ready : σ → Prop} {Fits : α → Prop}
    (hStep : ∀ s action, Ready s → Fits action → m.Follows n s action ∧ Ready (n.step s action))
    {actions : List α} (hActions : ∀ action ∈ actions, Fits action) {s : σ} (hReady : Ready s) :
    m.play s actions = some (n.run s actions, n.calls s actions) ∧ Ready (n.run s actions) := by
  induction actions generalizing s with
  | nil => exact ⟨rfl, hReady⟩
  | cons action rest ih =>
      obtain ⟨hFirst, hRest⟩ := List.forall_mem_cons.1 hActions
      obtain ⟨hFollows, hNext⟩ := hStep s action hReady hFirst
      obtain ⟨hPlay, hLast⟩ := ih hRest hNext
      refine ⟨?_, hLast⟩
      simp only [play, hFollows.draw, hFollows.step, hPlay, Option.bind_eq_bind, Option.bind_some]
      rfl

end Plotter

/-- The summary with one more record. -/
def count (summary : Summary) (outcome : Outcome) : Option Summary := do
  let dispatched ← add summary.dispatched 1
  match outcome with
  | .done => return { summary with dispatched }
  | .unhandled => return { summary with dispatched, unhandled := ← add summary.unhandled 1 }
  | .failed _ => return { summary with dispatched, failed := ← add summary.failed 1 }

/-- A record that could not be read is reported. -/
def warning? (r : Record) : Outcome → Option Warning
  | .failed fault => some (.recordSkipped r.opcode r.offset fault)
  | _ => none

/-- The replay of records from a state and a summary on. -/
def records (m : Plotter σ α) (reading : Record → Option (Reading α)) :
    σ → Summary → List Record → Option (List Call × Summary × List Warning)
  | _, summary, [] => some ([], summary, [])
  | s, summary, r :: rs => do
    let read ← reading r
    let (next, calls) ← m.play s read.actions
    let (later, total, warnings) ← records m reading next (← count summary read.outcome) rs
    return (calls ++ later, total, (warning? r read.outcome).toList ++ warnings)

def ofRecords (setup : List Call) (m : Plotter σ α) (start : σ)
    (reading : Record → Option (Reading α)) (rs : List Record) : Option Replay := do
  let (calls, summary, warnings) ← records m reading start ⟨0, 0, 0⟩ rs
  return ⟨setup ++ calls, summary, warnings⟩

section

variable {m : Plotter σ α} {n : Metafile.Plotter σ α} {reading : Record → Option (Reading α)}
  {read : Record → Reading α} {summary : Summary}

/-- One more record is counted without passing the greatest word. No other count is ahead of that
of all records. -/
theorem count_eq (hDispatched : summary.dispatched + 1 < 2 ^ 64)
    (hUnhandled : summary.unhandled ≤ summary.dispatched)
    (hFailed : summary.failed ≤ summary.dispatched) (outcome : Outcome) :
    count summary outcome = some (summary + .ofOutcomes [outcome]) := by
  have hMore : add summary.unhandled 1 = some (summary.unhandled + 1) := add_eq (by omega)
  have hWorse : add summary.failed 1 = some (summary.failed + 1) := add_eq (by omega)
  simp only [count, add_eq hDispatched, hMore, hWorse, Option.bind_eq_bind, Option.bind_some]
  cases outcome <;> rfl

theorem add_ofOutcomes_cons (outcome : Outcome) (outcomes : List Outcome) :
    summary + .ofOutcomes (outcome :: outcomes) =
      summary + .ofOutcomes [outcome] + .ofOutcomes outcomes := by
  rw [← List.singleton_append, Summary.ofOutcomes_append]
  show Summary.mk _ _ _ = Summary.mk _ _ _
  congr 1 <;> exact (Nat.add_assoc ..).symm

/-- In every state that is ready after so many records, the next one is read and what it asks for
is done, and the state behind it is ready as well. -/
def CarriesOut (m : Plotter σ α) (n : Metafile.Plotter σ α)
    (reading : Record → Option (Reading α)) (read : Record → Reading α)
    (Ready : Nat → σ → Prop) : Prop :=
  ∀ before s r, before < 2 ^ 63 → Ready before s → r.payload.size < 2 ^ 63 →
    reading r = some (read r) ∧
      m.play s (read r).actions = some (n.run s (read r).actions, n.calls s (read r).actions) ∧
      Ready (before + 1) (n.run s (read r).actions)

variable {Ready : Nat → σ → Prop} (hCarries : CarriesOut m n reading read Ready) {rs : List Record}
  (hPayload : ∀ r ∈ rs, r.payload.size < 2 ^ 63)

include hCarries hPayload

/-- Records are carried out, counted and reported one by one, with the calls and the counts that
are due. The state is ready for the number of records so far, since each of them may save a
context. -/
theorem records_eq {s : σ} (hReady : Ready summary.dispatched s)
    (hLength : summary.dispatched + rs.length < 2 ^ 63)
    (hUnhandled : summary.unhandled ≤ summary.dispatched)
    (hFailed : summary.failed ≤ summary.dispatched) :
    records m reading s summary rs = some (n.drawn read s rs,
      summary + .ofOutcomes (rs.map fun r => (read r).outcome),
      rs.filterMap fun r => warning? r (read r).outcome) := by
  induction rs generalizing s summary with
  | nil => rfl
  | cons r rs ih =>
      obtain ⟨hFirst, hRest⟩ := List.forall_mem_cons.1 hPayload
      rw [List.length_cons] at hLength
      obtain ⟨hRead, hPlay, hNext⟩ := hCarries _ s r (by omega) hReady hFirst
      have hCount := count_eq (by omega) hUnhandled hFailed (read r).outcome
      have hLater : records m reading _ (summary + .ofOutcomes [(read r).outcome]) rs = _ :=
        ih hRest hNext (show summary.dispatched + 1 + rs.length < 2 ^ 63 by omega)
          (Nat.add_le_add hUnhandled List.countP_le_length)
          (Nat.add_le_add hFailed List.countP_le_length)
      rw [Plotter.drawn_cons, List.map_cons, add_ofOutcomes_cons]
      simp only [records, hRead, hPlay, hCount, hLater, Option.bind_eq_bind, Option.bind_some]
      rw [List.filterMap_cons]
      cases warning? r (read r).outcome <;> rfl

/-- From the start this is the whole replay, as nothing has been counted yet. -/
theorem ofRecords_eq {start : σ} (hReady : Ready 0 start) (hLength : rs.length < 2 ^ 63)
    (setup : List Call) :
    ofRecords setup m start reading rs = some (.ofRecords setup n start read rs) := by
  have hRecords : records m reading start ⟨0, 0, 0⟩ rs = _ :=
    records_eq hCarries hPayload hReady (show 0 + rs.length < 2 ^ 63 by omega) (Nat.le_refl 0)
      (Nat.le_refl 0)
  have hSummary (outcomes : List Outcome) :
      (⟨0, 0, 0⟩ : Summary) + .ofOutcomes outcomes = .ofOutcomes outcomes := by
    show Summary.mk _ _ _ = Summary.mk _ _ _
    congr 1 <;> exact Nat.zero_add _
  rw [ofRecords, hRecords, hSummary, Replay.ofRecords, Plotter.drawn, actionsOf]
  simp only [List.map_map, List.flatMap_map, List.filterMap_map]
  rfl

end

namespace Session

def plotter : Plotter Session Action := ⟨step, draw⟩

/-- A session whose numbers fit carries out an action with numbers that fit. -/
theorem follows {s : Session} (hFits : s.Fits) (hSaved : s.saved.length < 2 ^ 63) {action : Action}
    (hAction : action.Fits) : plotter.Follows Gdi.Session.plotter s action :=
  ⟨step_eq hFits hSaved hAction, draw_eq hSaved hAction⟩

/-- A session that is reached by so many records has no more saved contexts than that. -/
def Ready (before : Nat) (s : Session) : Prop := s.Fits ∧ s.saved.length ≤ before

/-- Either a record asks for one action about the context, or all of its actions leave the saved
contexts alone. -/
theorem carriesOut {d : Dialect} {reading : Record → Option (Reading Action)}
    (hReading : ∀ r, r.payload.size < 2 ^ 63 → reading r = some (d.reading r))
    (hAsks : ∀ kind p, Asks Action.Fits (d.actions kind p)) :
    CarriesOut plotter Gdi.Session.plotter reading d.reading Ready := by
  rintro before s r hBefore ⟨hFits, hSaved⟩ hPayload
  refine ⟨hReading r hPayload, ?_⟩
  have hActions : ∀ action ∈ (d.reading r).actions, action.Fits := by
    unfold Dialect.reading
    split
    · rintro _ ⟨⟩
    · exact fun action hMem => (hAsks _ _).of_mem hMem
  by_cases hContext : d.effectOf r = .context
  · rcases Dialect.actions_of_context hContext with hNone | ⟨action, hOne⟩
    · rw [hNone]
      exact ⟨rfl, hFits, Nat.le_succ_of_le hSaved⟩
    · rw [hOne] at hActions ⊢
      have hAction := hActions action (List.mem_singleton_self _)
      have hDepth := s.length_saved_step_le action
      have hFollows := follows hFits (by omega) hAction
      refine ⟨?_, hFits.step hAction, ?_⟩
      · simp only [Plotter.play, hFollows.draw, hFollows.step, Option.bind_eq_bind,
          Option.bind_some]
        rfl
      · show (s.step action).saved.length ≤ before + 1
        omega
  · have hStep : ∀ t action, Ready before t → action.Fits ∧ action.effect ≠ .context →
        plotter.Follows Gdi.Session.plotter t action ∧ Ready before (t.step action) := by
      rintro t action ⟨hFits, hSaved⟩ ⟨hAction, hEffect⟩
      refine ⟨follows hFits (by omega) hAction, hFits.step hAction, ?_⟩
      rwa [Gdi.Session.saved_step hEffect]
    obtain ⟨hPlay, hLast, hDepth⟩ := Plotter.play_eq hStep
      (fun action hMem => ⟨hActions action hMem, by rwa [Dialect.effect_eq hMem]⟩)
      ⟨hFits, hSaved⟩
    exact ⟨hPlay, hLast, Nat.le_succ_of_le hDepth⟩

end Session

namespace Plus

open Metafile.Plus

def plotter : Plotter Plus.Session Plus.Action where
  step s
    | .define handle object => do
      return { s with objects := ← ObjectTable.put s.objects handle object }
    | action => some (s.step action)
  draw s action := some (s.draw action)

/-- Transforms are computed with numbers that no operation stops at, and saved ones are found by
their index. Only the objects have places. -/
theorem carriesOut : CarriesOut plotter Plus.Session.plotter reading Metafile.Plus.reading
    fun _ _ => True := by
  intro before s r _ _ hPayload
  refine ⟨reading_eq hPayload, ?_⟩
  have hHandles : ∀ action ∈ (Metafile.Plus.reading r).actions,
      ∀ handle object, action = .define handle object → handle < 0x100 := by
    unfold Metafile.Plus.reading
    split
    · rintro _ ⟨⟩
    · exact asks_handle_lt _ _ _
  have hStep : ∀ t action, True →
      (∀ handle object, action = .define handle object → handle < 0x100) →
      plotter.Follows Plus.Session.plotter t action ∧ True := by
    intro t action _ hHandle
    refine ⟨⟨?_, rfl⟩, trivial⟩
    cases action with
    | define handle object =>
        have hSmall := hHandle handle object rfl
        show (ObjectTable.put t.objects handle object).bind _ = _
        rw [ObjectTable.put_eq (by omega)]
        rfl
    | _ => rfl
  obtain ⟨hPlay, -⟩ := Plotter.play_eq hStep hHandles trivial
  exact ⟨hPlay, trivial⟩

end Plus

/-- How long a side is whose ends are so far apart, which may come in any order. -/
def side (edge distance : Int) : Option Int := do Signed.add (← Signed.abs distance) edge

/-- The size of a box in the numbers of the drawing. -/
def boxSize (r : Rect) (edge : Int) : Option (Size Float) := do
  let width ← side edge (← Rect.width r)
  let height ← side edge (← Rect.height r)
  return ⟨Float.ofInt width, Float.ofInt height⟩

def surfaceSize : Header → Option (Size Float)
  | .wmf header =>
    match header.placeable with
    | none => some Replay.standardSize
    | some placeable => do
      let size ← boxSize placeable.bounds 0
      return if size.isDrawable then size else Replay.standardSize
  | .emf header => boxSize header.bounds 1

/-- The size of the picture is only computed if it is needed. -/
def sizeFor (o : Replay.Options) (header : Header) : Option (Size Float) :=
  match o.surfaceSize with
  | some size => if size.isDrawable then some size else surfaceSize header
  | none => surfaceSize header

def setup (o : Replay.Options) (header : Header) : Option (List Call) := do
  return .setSize (← sizeFor o header) :: (o.background.map Call.fillBackground).toList

def replay (p : Picture) (o : Replay.Options) : Option Replay := do
  match p.header with
  | none => return .nothing
  | some header =>
    let session := Gdi.Session.initial header.initialMap
    match p.format with
    | .placeableWmf | .wmf =>
      ofRecords (← setup o header) Session.plotter session Wmf.reading p.records
    | .emf =>
      ofRecords (← setup o header) Session.plotter session (Emf.reading header.handleLimit)
        p.records
    | .emfPlus =>
      ofRecords (← setup o header) Plus.plotter .initial Plus.reading p.records
    | .unknown => return .nothing

/-- A side of the surface is the distance of two half words and an edge, which is a word. -/
theorem side_eq {edge : Nat} (hEdge : edge ≤ 1) {distance : Int}
    (hSmall : distance.natAbs < 2 ^ 32) :
    side edge distance = some (distance.natAbs + edge) := by
  have hAbs : Signed.abs distance = some (distance.natAbs : Int) :=
    Signed.signed_eq (by omega) (by omega)
  have hAdd : Signed.add (distance.natAbs : Int) edge = some ((distance.natAbs : Int) + edge) :=
    Signed.signed_eq (by omega) (by omega)
  exact (bind_of_eq_some hAbs _).trans hAdd

theorem boxSize_eq {r : Rect} (hFits : r.Fits) {edge : Nat} (hEdge : edge ≤ 1) :
    boxSize r edge =
      some ⟨Float.ofInt (r.width.natAbs + edge), Float.ofInt (r.height.natAbs + edge)⟩ := by
  have hWidth : r.width.natAbs < 2 ^ 32 := hFits.right.natAbs_sub_lt hFits.left
  have hHeight : r.height.natAbs < 2 ^ 32 := hFits.bottom.natAbs_sub_lt hFits.top
  rw [boxSize, bind_of_eq_some (Rect.width_eq hFits), bind_of_eq_some (side_eq hEdge hWidth),
    bind_of_eq_some (Rect.height_eq hFits), bind_of_eq_some (side_eq hEdge hHeight)]
  rfl

/-- So the size of the surface can be computed from every header that fits. -/
theorem surfaceSize_eq {header : Header} (hFits : header.Fits) :
    surfaceSize header = some header.surfaceSize := by
  cases header with
  | emf header => exact boxSize_eq hFits (Nat.le_refl 1)
  | wmf header =>
      simp only [surfaceSize, Header.surfaceSize]
      cases hPlaceable : header.placeable with
      | none => rfl
      | some placeable =>
          have hSize : boxSize placeable.bounds 0 = some
              ⟨Float.ofInt placeable.bounds.width.natAbs,
                Float.ofInt placeable.bounds.height.natAbs⟩ := by
            simpa using boxSize_eq (hFits placeable hPlaceable) (Nat.zero_le 1)
          dsimp only
          rw [hSize]
          rfl

/-- And the calls that set up the surface are those that are due, with any options. -/
theorem setup_eq {header : Header} (hFits : header.Fits) (o : Replay.Options) :
    setup o header = some (o.setup header) := by
  have hSize : sizeFor o header = some (o.sizeFor header) := by
    unfold sizeFor Replay.Options.sizeFor
    cases o.surfaceSize with
    | none => exact surfaceSize_eq hFits
    | some size =>
        dsimp only
        rw [surfaceSize_eq hFits]
        split <;> rfl
  rw [setup, hSize]
  rfl

/-- The machine carries out all records of WMF: it reads them and takes the actions that they ask
for. -/
theorem Wmf.carriesOut :
    CarriesOut Session.plotter Gdi.Session.plotter reading Metafile.Wmf.reading Session.Ready := by
  rw [← Metafile.Wmf.reading_dialect]
  refine Session.carriesOut (fun r hPayload => ?_) Metafile.Wmf.asks_fits
  rw [Metafile.Wmf.reading_dialect]
  exact reading_eq hPayload

/-- It carries out all records of EMF, whatever the limit of the handles is. -/
theorem Emf.carriesOut (limit : Nat) :
    CarriesOut Session.plotter Gdi.Session.plotter (reading limit) (Metafile.Emf.reading limit)
      Session.Ready := by
  rw [← Metafile.Emf.reading_dialect]
  refine Session.carriesOut (fun r hPayload => ?_) (Metafile.Emf.asks_fits limit)
  rw [Metafile.Emf.reading_dialect]
  exact reading_eq hPayload limit

/-- The machine replays every picture that it can hold, with any options and without stopping. -/
theorem replay_eq {p : Picture} (hFits : p.Fits) (o : Replay.Options) :
    replay p o = some (p.replay o) := by
  obtain ⟨format, header, rs, error⟩ := p
  cases header with
  | none => rfl
  | some header =>
      have hReady : Session.Ready 0 (.initial header.initialMap) :=
        ⟨⟨header.fits_initialMap, by rintro _ ⟨⟩⟩, Nat.le_refl 0⟩
      have hSetup := setup_eq (hFits.header header rfl) o
      cases format with
      | unknown => rfl
      | emfPlus =>
          exact (bind_of_eq_some hSetup _).trans
            (ofRecords_eq Plus.carriesOut hFits.payload_lt trivial hFits.length_lt _)
      | emf =>
          exact (bind_of_eq_some hSetup _).trans
            (ofRecords_eq (Emf.carriesOut _) hFits.payload_lt hReady hFits.length_lt _)
      | placeableWmf | wmf =>
          exact (bind_of_eq_some hSetup _).trans
            (ofRecords_eq Wmf.carriesOut hFits.payload_lt hReady hFits.length_lt _)

/-- No operation on the way of a decoding or a replay is without a value on a machine with 64-bit
words. Every buffer is decoded to what it is to be decoded to, and that is a picture that can be
replayed; every picture that the machine can hold is replayed, decoded or not. Readers stay
inside their buffers wherever they are moved, and half words are scaled by half words, also by
minus one and the least of them. -/
theorem never_stops :
    (∀ (limits : Limits) (data : Bytes), data.size < 2 ^ 63 →
      decode limits data = some (Picture.decode limits data) ∧
        (Picture.decode limits data).1.Fits) ∧
    (∀ (p : Picture) (o : Replay.Options), p.Fits → replay p o = some (p.replay o)) ∧
    (∀ (r : Reader) (count : Nat), r.data.size < 2 ^ 63 → r.Inside →
      (r.seek count).Inside ∧ (r.skip count).Inside ∧
        r.remaining = some (r.data.size - r.position) ∧
        ∃ after, r.bytes count = some (r.data.slice r.position count, after) ∧ after.Inside) ∧
    ∀ (r : Ratio) (length : Int), r.Fits → IsHalf length →
      scale r length = some (r.scale length) :=
  ⟨fun limits _ hSize => ⟨decode_eq hSize limits, Picture.fits_decode hSize limits⟩,
    fun _ o hFits => replay_eq hFits o,
    fun r count hSize hInside => ⟨r.inside_seek count, r.inside_seek _,
      Reader.inside_bytes hSize hInside count⟩,
    fun _ _ hRatio hLength => scale_eq hRatio hLength⟩

/-- A buffer that ends within its first header, a box that is as wide as boxes can be with a
record that scales by minus one, and the least half word scaled by itself and minus one. -/
theorem never_stops_leastHalf :
    decode .standard #[0xD7, 0xCD, 0xC6, 0x9A] =
      some (Picture.decode .standard #[0xD7, 0xCD, 0xC6, 0x9A]) ∧
    (let box : Rect := ⟨-(2 ^ 31), -(2 ^ 31), 2 ^ 31 - 1, 2 ^ 31 - 1⟩
     let p : Picture := ⟨.wmf, some (.wmf ⟨some ⟨0, 0, box, 0, 0, 0⟩, 0, 0, 0, 0, 0, 0, 0⟩),
       [⟨0x0410, 7, 0, 0, #[0xFF, 0xFF, 0x00, 0x80, 0xFF, 0xFF, 0x00, 0x80]⟩], none⟩
     replay p .standard = some (p.replay .standard)) ∧
    Reader.remaining ⟨#[0xD7, 0xCD], 2⟩ = some 0 ∧
    scale ⟨-(2 ^ 31), -1⟩ (-(2 ^ 31)) = some (-(2 ^ 31)) := by
  obtain ⟨hDecode, hReplay, hReader, hScale⟩ := never_stops
  refine ⟨(hDecode _ _ (by decide)).1, hReplay _ _ ⟨by decide, ?_, ?_⟩,
    (hReader ⟨#[0xD7, 0xCD], 2⟩ 0 (by decide) (Nat.le_refl 2)).2.2.1, ?_⟩
  · intro r hMem
    obtain rfl := List.mem_singleton.1 hMem
    decide
  · rintro _ ⟨⟩ _ ⟨⟩
    exact ⟨by decide, by decide, by decide, by decide⟩
  · rw [hScale _ _ ⟨by decide, by decide⟩ (by decide)]
    decide

end Machine

end Metafile
