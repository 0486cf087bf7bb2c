import Metafile.Proofs.Gdi.Dialect
import Metafile.Proofs.Gdi.Protocol
import Metafile.Proofs.Geometry.WholeNumber
import Metafile.Proofs.Machine.Fits

/-! The calls of a replay from the point of view of the surface: a size that something can be
drawn on, the background if there is one, and then the calls of the records. -/

namespace Metafile

namespace Plus.Session

variable (s : Session)

/-- Taking up a pen gives lines a width, whatever the pen has. -/
theorem regular_penCalls (handle : Nat) : ∀ call ∈ s.penCalls handle, call.IsRegular := by
  have hOne : (0 : Float) < 1 := by decide
  unfold penCalls
  split
  · simp [Call.IsRegular, visibleWidth_pos]
  · simp [Call.IsRegular, hOne]

/-- No action changes the size of the surface or draws along a path. -/
theorem regular_draw (action : Action) : ∀ call ∈ s.draw action, call.IsRegular := by
  cases action with
  | strokeWith pen => exact s.regular_penCalls pen
  | restore index =>
      unfold draw
      dsimp only
      split <;> simp [Call.IsRegular]
  | _ => simp [draw, Call.IsRegular]

/-- So the calls of a session are regular, however many actions it takes. -/
theorem lineByLine_calls (actions : List Action) :
    LineByLine Call.IsRegular (plotter.calls s actions) :=
  .calls_of_draw plotter (fun s action => .of_forall (s.regular_draw action)) s actions

end Plus.Session

/-- Even a header of a degenerate box asks for a size that something can be drawn on. -/
theorem Header.isDrawable_surfaceSize {header : Header} (hFits : header.Fits) :
    header.surfaceSize.isDrawable := by
  have hStandard : Replay.standardSize.isDrawable := by decide
  cases header with
  | wmf header =>
      unfold surfaceSize
      dsimp only
      split
      · exact hStandard
      · split
        · assumption
        · exact hStandard
  | emf header =>
      have hWidth : header.bounds.width.natAbs < 2 ^ 32 := hFits.right.natAbs_sub_lt hFits.left
      have hHeight : header.bounds.height.natAbs < 2 ^ 32 := hFits.bottom.natAbs_sub_lt hFits.top
      have hWidthLess : header.bounds.width.natAbs + 1 < 2 ^ 53 := by omega
      have hHeightLess : header.bounds.height.natAbs + 1 < 2 ^ 53 := by omega
      exact Size.isDrawable_ofInt (Nat.succ_pos _) hWidthLess (Nat.succ_pos _) hHeightLess

/-- A header whose bounds fit gives a surface that can be drawn on, with any options. -/
theorem Replay.Options.isDrawable_sizeFor (o : Options) {header : Header} (hFits : header.Fits) :
    (o.sizeFor header).isDrawable := by
  have hHeader := Header.isDrawable_surfaceSize hFits
  unfold sizeFor
  split
  · split
    · assumption
    · exact hHeader
  · exact hHeader

namespace Picture

variable {p : Picture}

/-- Behind the calls that prepare the surface stand those of the records. -/
theorem exists_calls_replay {header : Header} (hHeader : p.header = some header)
    (hFormat : p.format ≠ .unknown) (o : Replay.Options) :
    ∃ drawn, (p.replay o).calls = o.setup header ++ drawn ∧ LineByLine Call.IsRegular drawn ∧
      (p.format ≠ .emfPlus → LineByLine Call.IsSubstantial drawn) := by
  obtain ⟨format, header?, rs, error⟩ := p
  cases hHeader
  cases format with
  | unknown => exact absurd rfl hFormat
  | emfPlus =>
      refine ⟨_, Replay.calls_ofRecords .., ?_, fun hPlus => absurd rfl hPlus⟩
      exact Plus.Session.lineByLine_calls ..
  | placeableWmf | wmf | emf =>
      have hCalls := Gdi.Session.lineByLine_calls (.initial header.initialMap)
      refine ⟨_, calls_replay_of_isGdi rfl header rs error o, ?_, fun _ => hCalls _⟩
      exact (hCalls _).mono fun _ => Call.IsSubstantial.isRegular

/-- The lines of a replay are drawn one by one, and every other call is good by itself. -/
theorem lineByLine_replay (p : Picture) (o : Replay.Options) :
    LineByLine (·.tracesPath = false) (p.replay o).calls := by
  cases hHeader : p.header with
  | none =>
      rw [Picture.replay, hHeader]
      exact .nil
  | some header =>
      by_cases hFormat : p.format = .unknown
      · rw [Picture.replay, hHeader, hFormat]
        exact .nil
      · obtain ⟨drawn, hCalls, hRegular, -⟩ := exists_calls_replay hHeader hFormat o
        have hSetup : ∀ call ∈ o.setup header, call.tracesPath = false := by
          unfold Replay.Options.setup
          cases o.background <;> simp [Call.tracesPath]
        rw [hCalls]
        exact (LineByLine.of_forall hSetup).append
          (hRegular.mono fun _ => Call.IsRegular.tracesPath)

/-- First the surface gets a size that something can be drawn on, then its background is
filled if there is a colour for it, and the calls of the records keep to the protocol. -/
theorem calls_replay_protocol {header : Header} (hHeader : p.header = some header)
    (hFits : header.Fits) (hFormat : p.format ≠ .unknown) (o : Replay.Options) :
    ∃ size drawn,
      (p.replay o).calls =
        .setSize size :: ((o.background.map Call.fillBackground).toList ++ drawn) ∧
      size.width.isFinite ∧ 0 < size.width ∧ size.height.isFinite ∧ 0 < size.height ∧
      CallProtocol drawn ∧ (p.format ≠ .emfPlus → LineProtocol drawn) := by
  obtain ⟨drawn, hCalls, hRegular, hLines⟩ := exists_calls_replay hHeader hFormat o
  have hSize := o.isDrawable_sizeFor hFits
  simp only [Size.isDrawable, Bool.and_eq_true, decide_eq_true_eq] at hSize
  obtain ⟨⟨⟨hWidthFinite, hHeightFinite⟩, hWidth⟩, hHeight⟩ := hSize
  exact ⟨o.sizeFor header, drawn, hCalls, hWidthFinite, hWidth, hHeightFinite, hHeight,
    hRegular.callProtocol, fun hPlus => (hLines hPlus).lineProtocol⟩

/-- A picture that was put together by hand: the header of an EMF file, with a box as wide as
can be and without height, in front of a line in a WMF file. -/
theorem calls_replay_protocol_foreignHeader :
    let header : Header := .emf ⟨1, 88, ⟨-0x80000000, 5, 0x7FFFFFFF, 5⟩, ⟨0, 0, 0, 0⟩,
      0, 0, 0, 0, 0, 0, 0, 0, 0, ⟨0, 0⟩, ⟨0, 0⟩⟩
    let p : Picture := ⟨.wmf, some header, [⟨0x213, 5, 0, 88, #[3, 0, 4, 0]⟩], none⟩
    p.header = some header ∧ header.Fits ∧ p.format ≠ .unknown ∧
      ∃ size drawn,
        (p.replay .standard).calls = .setSize size :: .fillBackground .white :: drawn ∧
        size.width.isFinite ∧ 0 < size.width ∧ size.height.isFinite ∧ 0 < size.height ∧
        LineProtocol drawn := by
  intro header p
  have hFits : header.Fits := ⟨by decide, by decide, by decide, by decide⟩
  have hFormat : p.format ≠ .unknown := by decide
  obtain ⟨size, drawn, hCalls, hWidth, hWidthPos, hHeight, hHeightPos, -, hLines⟩ :=
    calls_replay_protocol (p := p) rfl hFits hFormat .standard
  exact ⟨rfl, hFits, hFormat, size, drawn, hCalls, hWidth, hWidthPos, hHeight, hHeightPos,
    hLines (by decide)⟩

end Picture

end Metafile
