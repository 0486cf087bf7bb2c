import Metafile.Proofs.Gdi.Stroke

/-! Figures of a path. Shapes and moves begin figures of their own, but a line in a path goes
on from the end of the newest figure, whatever that is and wherever the current position is.
Earlier figures are never touched again. -/

namespace Metafile

/-- Only from their last one points are reached by the segments that lead to them from a
start. -/
theorem segmentsThrough_append_iff {points more : List (Point Float)} {start : Point Float} :
    segmentsThrough (points ++ more) =
        segmentsThrough points ++ segmentsThrough (start :: more) ↔
      more = [] ∨ points.getLast? = some start := by
  cases more with
  | nil => simp [segmentsThrough]
  | cons next rest =>
      cases hLast : points.getLast? with
      | none =>
          obtain rfl := List.getLast?_eq_none_iff.1 hLast
          refine iff_of_false ?_ (by simp)
          intro hSame
          have hLength := congrArg List.length hSame
          simp [segmentsThrough] at hLength
      | some last =>
          rw [segmentsThrough_append hLast, List.append_cancel_left_eq]
          simp [segmentsThrough]

namespace Gdi

namespace Action

/-- The action puts another path, or none, in the place of the one there is. -/
def replacesPath : Action → Bool
  | .beginPath | .discardPath | .fillPath | .strokePath | .strokeAndFillPath => true
  | _ => false

/-- The action begins a figure in a path that is recording and has figures. -/
def beginsFigure : Action → Bool
  | .moveTo _ | .rectangle _ _ | .ellipse _ _ => true
  | .polyline points | .polygon points => !points.isEmpty
  | _ => false

/-- The action adds points to the newest figure of a path, if it has one. -/
def extendsFigure : Action → Bool
  | .lineTo _ | .polylineTo _ | .bezierTo _ | .closeFigure => true
  | _ => false

/-- Only actions about the path can put another path in its place. -/
theorem replacesPath_of_effect_ne {action : Action} (hEffect : action.effect ≠ .path) :
    action.replacesPath = false := by
  cases action <;> first | rfl | exact absurd rfl hEffect

end Action

/-- Actions with the effect leave the current position where lines of the path end. -/
def Effect.keepsPlace : Effect → Bool
  | .nothing | .attribute | .objects | .selection | .line => true
  | .mapping | .shape | .context | .path => false

/-- The segments of all figures of a path, in the order of their creation. -/
def segmentsOf (figures : List Figure) : List Segment := figures.reverse.flatMap segmentsThrough

/-- The segments that points add to the newest figure start where it ends. -/
theorem segmentsOf_modifyHead_iff (figures : List Figure) (points : Figure)
    (start : Point Float) :
    segmentsOf (figures.modifyHead (· ++ points)) =
        segmentsOf figures ++ segmentsThrough (start :: points) ↔
      points = [] ∨ figures.head?.bind List.getLast? = some start := by
  cases figures with
  | nil => cases points <;> simp [segmentsOf, segmentsThrough]
  | cons newest earlier =>
      simp only [segmentsOf, List.modifyHead_cons, List.reverse_cons, List.flatMap_append,
        List.flatMap_singleton, List.append_assoc, List.append_cancel_left_eq]
      exact segmentsThrough_append_iff

/-- A figure is changed by points behind the newest figure if it is the newest one. -/
theorem suffix_modifyHead_iff (newer : List Figure) {kept points : Figure}
    {earlier : List Figure} :
    kept :: earlier <:+ (newer ++ kept :: earlier).modifyHead (· ++ points) ↔
      0 < newer.length ∨ points = [] := by
  cases newer with
  | nil =>
      constructor
      · intro hSuffix
        have hSame := hSuffix.eq_of_length (by simp)
        exact .inr (by simpa using hSame)
      · rintro (hNewer | rfl)
        · cases hNewer
        · simp
  | cons newest rest =>
      refine iff_of_true ?_ (.inl (Nat.succ_pos _))
      exact List.suffix_append ((newest ++ points) :: rest) _

namespace Session

variable {s : Session} {action : Action} {newest kept : Figure} {newer earlier : List Figure}

/-- A path that is recording takes every change that is recorded. -/
theorem path_record {path : Path} (hPath : s.path = some path) (hRecording : path.recording = true)
    (f : Path → Path) : (s.record f).path = some (f path) := by
  simp [record, hPath, hRecording]

/-- A line goes on from the end of the newest figure. -/
theorem path_continueTo_figures (hPath : s.path = some ⟨newest :: earlier, true⟩)
    (points : List (Point Float)) :
    (s.continueTo points).path =
      some ⟨(newest ++ points.map s.place) :: earlier, true⟩ := by
  unfold continueTo
  cases hLast : points.getLast? with
  | none =>
      obtain rfl := List.getLast?_eq_none_iff.1 hLast
      simp [hPath]
  | some last => exact path_record hPath rfl _

/-- What an action makes of a path that goes on recording: it begins a figure, or it adds
points to the newest one. -/
theorem figures_step (hPath : s.path = some ⟨newest :: earlier, true⟩)
    (hKeeps : action.replacesPath = false) (hEnd : action ≠ .endPath) :
    (action.beginsFigure = true ∧
        ∃ figure, (s.step action).path = some ⟨figure :: newest :: earlier, true⟩) ∨
      (action.beginsFigure = false ∧
        ∃ more, (s.step action).path = some ⟨(newest ++ more) :: earlier, true⟩ ∧
          (action.extendsFigure = false → more = [])) := by
  have hSame : ∀ s' : Session, s'.path = s.path →
      ∃ more, s'.path = some ⟨(newest ++ more) :: earlier, true⟩ ∧
        (action.extendsFigure = false → more = []) := by
    intro s' hStill
    exact ⟨[], by rw [hStill, hPath, List.append_nil], fun _ => rfl⟩
  cases action with
  | moveTo _ | rectangle _ _ | ellipse _ _ => exact .inl ⟨rfl, _, path_record hPath rfl _⟩
  | polyline points | polygon points =>
      cases points with
      | nil => exact .inr ⟨rfl, hSame _ rfl⟩
      | cons first rest => exact .inl ⟨rfl, _, path_record hPath rfl _⟩
  | lineTo _ | polylineTo _ | bezierTo _ =>
      exact .inr ⟨rfl, _, path_continueTo_figures hPath _, nofun⟩
  | closeFigure =>
      refine .inr ⟨rfl, newest.head?.toList, ?_, nofun⟩
      cases newest with
      | nil => simp [step, hPath, Path.closeFigure]
      | cons first rest => simp [step, hPath, Path.closeFigure]
  | restoreContext level =>
      refine .inr ⟨rfl, hSame _ ?_⟩
      rcases s.restore_cases level with hNone | ⟨_, _, _, -, hRestored⟩
      · rw [step, hNone]
      · rw [step, hRestored]
  | endPath => exact absurd rfl hEnd
  | beginPath | discardPath | fillPath | strokePath | strokeAndFillPath => cases hKeeps
  | _ => exact .inr ⟨rfl, hSame _ rfl⟩

/-- A figure behind which others have begun is final. Until then points may be added to it. -/
theorem exists_figures_step (hPath : s.path = some ⟨newer ++ kept :: earlier, true⟩)
    (hKeeps : action.replacesPath = false) (hEnd : action ≠ .endPath) :
    ∃ newer' kept', (s.step action).path = some ⟨newer' ++ kept' :: earlier, true⟩ ∧
      newer'.length = newer.length + (if action.beginsFigure then 1 else 0) ∧
      kept <+: kept' ∧ (0 < newer.length ∨ action.extendsFigure = false → kept' = kept) := by
  cases newer with
  | nil =>
      rcases figures_step hPath hKeeps hEnd with
        ⟨hBegins, figure, hStep⟩ | ⟨hBegins, more, hStep, hMore⟩
      · exact ⟨[figure], kept, hStep, by simp [hBegins], List.prefix_rfl, fun _ => rfl⟩
      · refine ⟨[], kept ++ more, hStep, by simp [hBegins], List.prefix_append .., ?_⟩
        rintro (hNewer | hExtends)
        · cases hNewer
        · rw [hMore hExtends, List.append_nil]
  | cons newest rest =>
      rcases figures_step hPath hKeeps hEnd with
        ⟨hBegins, figure, hStep⟩ | ⟨hBegins, more, hStep, -⟩
      · exact ⟨figure :: newest :: rest, kept, hStep, by simp [hBegins], List.prefix_rfl,
          fun _ => rfl⟩
      · exact ⟨(newest ++ more) :: rest, kept, hStep, by simp [hBegins], List.prefix_rfl,
          fun _ => rfl⟩

/-- Over any such actions the kept figure stays in its place above the earlier ones. It is only
ever made longer, and not at all once a newer figure is there or if none of the actions goes on
from a figure. The induction is on the actions with the newer figures generalized, as each step
may begin one. -/
theorem exists_figures_run (hPath : s.path = some ⟨newer ++ kept :: earlier, true⟩)
    {actions : List Action}
    (hActions : ∀ action ∈ actions, action.replacesPath = false ∧ action ≠ .endPath) :
    ∃ newer' kept',
      (plotter.run s actions).path = some ⟨newer' ++ kept' :: earlier, true⟩ ∧
      newer'.length = newer.length + actions.countP Action.beginsFigure ∧
      kept <+: kept' ∧
      (0 < newer.length ∨ (∀ action ∈ actions, action.extendsFigure = false) →
        kept' = kept) := by
  induction actions generalizing s newer kept with
  | nil => exact ⟨newer, kept, hPath, rfl, List.prefix_rfl, fun _ => rfl⟩
  | cons action rest ih =>
      obtain ⟨⟨hKeeps, hEnd⟩, hRest⟩ := List.forall_mem_cons.1 hActions
      obtain ⟨middle, held, hStep, hCount, hHeld, hStill⟩ := exists_figures_step hPath hKeeps hEnd
      obtain ⟨newer', kept', hRun, hLength, hKept, hFinal⟩ := ih hStep hRest
      refine ⟨newer', kept', hRun, ?_, hHeld.trans hKept, ?_⟩
      · rw [hLength, hCount, List.countP_cons]
        omega
      · rintro (hNewer | hExtend)
        -- Figures only become more, so one that is not the newest now never is again.
        · rw [hFinal (.inl (by omega)), hStill (.inl hNewer)]
        · obtain ⟨hFirst, hOthers⟩ := List.forall_mem_cons.1 hExtend
          rw [hFinal (.inr hOthers), hStill (.inr hFirst)]

/-- A line that can be read is drawn, and otherwise nothing happens. -/
theorem run_ofExcept_line {β : Type} (read : Except Fault β) {line : β → Action}
    (hLine : ∀ value, s.step (line value) = s.continueTo (s.route (line value))) :
    let actions := (Reading.ofExcept (read >>= fun value => pure [line value])).actions
    plotter.run s actions = s.continueTo (actions.flatMap s.route) := by
  cases read with
  | error fault => rfl
  | ok value =>
      show s.step (line value) = s.continueTo (s.route (line value) ++ [])
      rw [hLine, List.append_nil]

/-- The newest figure of a path that is recording ends at the current position. -/
def EndsAtPosition (s : Session) : Prop :=
  ∃ newest earlier, s.path = some ⟨newest :: earlier, true⟩ ∧
    newest.getLast? = some (s.place s.dc.position)

/-- Where the newest figure ends at the position, its last point is the image of the position. -/
theorem EndsAtPosition.head_eq (hEnds : s.EndsAtPosition) {figures : List Figure}
    {recording : Bool} (hPath : s.path = some ⟨figures, recording⟩) :
    figures.head?.bind List.getLast? = some (s.place s.dc.position) := by
  obtain ⟨newest, earlier, hSame, hLast⟩ := hEnds
  rw [hPath] at hSame
  cases hSame
  exact hLast

/-- A move begins a figure at the new position, so that the two agree behind it. -/
theorem endsAtPosition_moveTo {path : Path} (hPath : s.path = some path)
    (hRecording : path.recording = true) (point : Point Float) :
    (s.step (.moveTo point)).EndsAtPosition := by
  obtain ⟨figures, recording⟩ := path
  obtain rfl : recording = true := hRecording
  exact ⟨[s.place point], figures, path_record hPath rfl _, rfl⟩

/-- A line that goes on from a figure takes the position along. -/
theorem endsAtPosition_continueTo (hEnds : s.EndsAtPosition) (points : List (Point Float)) :
    (s.continueTo points).EndsAtPosition := by
  obtain ⟨newest, earlier, hPath, hLast⟩ := hEnds
  refine ⟨_, earlier, path_continueTo_figures hPath points, ?_⟩
  unfold continueTo
  cases hPoints : points.getLast? with
  | none =>
      obtain rfl := List.getLast?_eq_none_iff.1 hPoints
      simpa using hLast
  | some last =>
      rw [List.getLast?_append, List.getLast?_map, hPoints]
      rfl

/-- Selecting an object leaves the position where it is. -/
theorem position_select (dc : DeviceContext) (object : Option Object) :
    (dc.select object).position = dc.position := by
  cases object with
  | none => rfl
  | some object => cases object <;> rfl

/-- Records of the kinds that keep the place leave the two in agreement. Shapes do not belong to
them: they begin figures of their own and leave the position behind. -/
theorem endsAtPosition_step (hEnds : s.EndsAtPosition) (hEffect : action.effect.keepsPlace = true) :
    (s.step action).EndsAtPosition := by
  obtain ⟨newest, earlier, hPath, hLast⟩ := hEnds
  cases action with
  | moveTo point => exact endsAtPosition_moveTo hPath rfl point
  | lineTo _ | polylineTo _ | bezierTo _ => exact endsAtPosition_continueTo ⟨_, _, hPath, hLast⟩ _
  | setAttribute value => cases value <;> exact ⟨newest, earlier, hPath, hLast⟩
  | create _ | put _ _ | delete _ => exact ⟨newest, earlier, hPath, hLast⟩
  | select handle =>
      refine ⟨newest, earlier, hPath, ?_⟩
      show _ = some (s.place (s.dc.select (s.objects.resolve? handle)).position)
      rw [position_select, hLast]
  | _ => cases hEffect

/-- And so do any number of such records, the lines and moves among them taking figure and
position along together. -/
theorem endsAtPosition_run (hEnds : s.EndsAtPosition) {actions : List Action}
    (hActions : ∀ action ∈ actions, action.effect.keepsPlace = true) :
    (plotter.run s actions).EndsAtPosition :=
  plotter.run_preserves EndsAtPosition
    (fun _ _ hBefore hAction => endsAtPosition_step hBefore hAction) hActions hEnds

end Session

namespace Dialect

variable (d : Dialect)

/-- The points on the surface through which a record leads lines from the current position. -/
def route (s : Session) (r : Record) : List (Point Float) :=
  ((d.reading r).actions.flatMap s.route).map s.place

/-- How many figures records begin in a path that is recording and has figures. -/
def figuresBegun (rs : List Record) : Nat := (actionsOf d.reading rs).countP Action.beginsFigure

theorem figuresBegun_append (first second : List Record) :
    d.figuresBegun (first ++ second) = d.figuresBegun first + d.figuresBegun second := by
  simp only [figuresBegun, actionsOf, List.flatMap_append, List.countP_append]

end Dialect

end Gdi

open Gdi

namespace Emf

/-- The kinds of records that open a path, give it up or render it. -/
def Kind.replacesPath : Kind → Bool
  | .beginPath | .fillPath | .strokePath | .strokeAndFillPath | .abortPath | .selectClipPath => true
  | _ => false

/-- The kinds of records that draw lines from the current position. -/
def Kind.drawsFromPosition : Kind → Bool
  | .lineTo | .polyLineTo | .polyLineTo16 | .polyBezierTo | .polyBezierTo16 => true
  | _ => false

/-- Only kinds about the path can put another path in its place. -/
theorem Kind.replacesPath_of_effect_ne {kind : Kind} (hEffect : kind.effect ≠ .path) :
    kind.replacesPath = false := by
  cases kind <;> first | rfl | exact absurd rfl hEffect

/-- What the actions of a record do to a path is told by its kind. -/
theorem asks_path (limit : Nat) (kind : Kind) (p : Bytes) :
    Asks (fun action => action.replacesPath = kind.replacesPath ∧
      (action = .endPath → kind = .endPath) ∧ (action = .closeFigure → kind = .closeFigure))
      (actions limit kind p) := by
  by_cases hPath : kind.effect = .path
  · cases kind with
    | beginPath | endPath | closeFigure | fillPath | strokePath | strokeAndFillPath | abortPath
    | selectClipPath => exact asks_singleton.2 ⟨rfl, by simp, by simp⟩
    | _ => cases hPath
  · intro asked hRead action hMem
    have hEffect : action.effect ≠ .path := by
      rw [yields_actions limit kind p asked hRead action hMem]
      exact hPath
    refine ⟨?_, ?_, ?_⟩
    · rw [Action.replacesPath_of_effect_ne hEffect, Kind.replacesPath_of_effect_ne hPath]
    · rintro rfl
      exact absurd rfl hEffect
    · rintro rfl
      exact absurd rfl hEffect

/-- Only lines from the current position and the closing of a figure add to figures. -/
theorem asks_extendsFigure (limit : Nat) {kind : Kind} (hLine : kind.drawsFromPosition = false)
    (hClose : kind ≠ .closeFigure) (p : Bytes) :
    Asks (fun action => action.extendsFigure = false) (actions limit kind p) := by
  cases kind with
  | moveToEx => exact asks_bind.2 fun _ _ => asks_singleton.2 rfl
  | beginPath | endPath | fillPath | strokePath | strokeAndFillPath | abortPath
  | selectClipPath => exact asks_singleton.2 rfl
  | lineTo | polyLineTo | polyLineTo16 | polyBezierTo | polyBezierTo16 => cases hLine
  | closeFigure => exact absurd rfl hClose
  | _ =>
      intro asked hRead action hMem
      have hEffect := yields_actions limit _ p asked hRead action hMem
      cases action <;> first | rfl | cases hEffect

variable {limit : Nat}

/-- Such a record asks for at most one line, and for none if it cannot be read. -/
theorem after_line {kind : Kind} {line : Record} (hKind : Kind.ofCode? line.opcode = some kind)
    (hLine : kind.drawsFromPosition = true) (s : Session) :
    (dialect limit).after s [line] =
      s.continueTo (((dialect limit).reading line).actions.flatMap s.route) := by
  rw [Dialect.after_cons, reading_dialect, reading, hKind]
  cases kind with
  | lineTo | polyLineTo | polyLineTo16 | polyBezierTo | polyBezierTo16 =>
      exact Session.run_ofExcept_line _ fun _ => rfl
  | _ => cases hLine

/-- What holds of the kinds of records holds of their actions: the path is neither replaced nor
ended by them. -/
theorem actions_path {rs : List Record}
    (hRecords : ∀ r ∈ rs, ∀ kind ∈ Kind.ofCode? r.opcode,
      kind.replacesPath = false ∧ kind ≠ .endPath) :
    ∀ action ∈ actionsOf (dialect limit).reading rs,
      action.replacesPath = false ∧ action ≠ .endPath := by
  refine Dialect.of_mem_actionsOf ?_ hRecords
  rintro kind p ⟨hKeeps, hEnd⟩ asked hRead action hMem
  obtain ⟨hReplaces, hEnds, -⟩ := asks_path limit kind p asked hRead action hMem
  exact ⟨hReplaces.trans hKeeps, fun hSame => hEnd (hEnds hSame)⟩

/-- A move with enough bytes asks for one action, and this has the point of its payload. -/
theorem actions_move {move : Record} (hMove : Kind.ofCode? move.opcode = some .moveToEx)
    (hSize : 8 ≤ move.payload.size) :
    ((dialect limit).reading move).actions = [.moveTo (drawnPoint move.payload 0)] := by
  rw [reading_dialect, reading, hMove]
  dsimp only [actions]
  rw [Bytes.need_eq_ok_iff.2 hSize]
  rfl

/-- It begins one figure, to be counted with those of the records behind it. -/
theorem figuresBegun_move {move : Record} (hMove : Kind.ofCode? move.opcode = some .moveToEx)
    (hSize : 8 ≤ move.payload.size) (rest : List Record) :
    (dialect limit).figuresBegun (move :: rest) = 1 + (dialect limit).figuresBegun rest := by
  have hOne : (dialect limit).figuresBegun [move] = 1 := by
    simp [Dialect.figuresBegun, actionsOf, actions_move hMove hSize, Action.beginsFigure]
  rw [← hOne, ← Dialect.figuresBegun_append]
  rfl

/-- A line adds its points to the newest figure and leaves all earlier ones as they are. -/
theorem path_after_line {s : Session} {figures : List Figure} (hFigures : figures ≠ [])
    (hPath : s.path = some ⟨figures, true⟩) {line : Record} {kind : Kind}
    (hKind : Kind.ofCode? line.opcode = some kind) (hLine : kind.drawsFromPosition = true) :
    ((dialect limit).after s [line]).path =
      some ⟨figures.modifyHead (· ++ (dialect limit).route s line), true⟩ := by
  obtain ⟨newest, earlier, rfl⟩ := List.exists_cons_of_ne_nil hFigures
  rw [after_line hKind hLine]
  exact Session.path_continueTo_figures hPath _

/-- A move in a path begins a figure at the current position, and as long as nothing but
lines follow, or records that have nothing to do with positions, the figure ends there. -/
theorem endsAtPosition_after_move {start : Session} {shape : Figure} {earlier : List Figure}
    (hShape : start.path = some ⟨shape :: earlier, true⟩) {lead rest : List Record} {move : Record}
    (hLead : ∀ r ∈ lead, ∀ kind ∈ Kind.ofCode? r.opcode,
      kind.replacesPath = false ∧ kind ≠ .endPath)
    (hMove : Kind.ofCode? move.opcode = some .moveToEx) (hSize : 8 ≤ move.payload.size)
    (hRest : ∀ r ∈ rest, ((dialect limit).effectOf r).keepsPlace = true) :
    ((dialect limit).after start (lead ++ move :: rest)).EndsAtPosition := by
  have hStart : start.path = some ⟨[] ++ shape :: earlier, true⟩ := hShape
  obtain ⟨_, _, hPath, -⟩ := Session.exists_figures_run hStart (actions_path hLead)
  rw [Dialect.after_append, Dialect.after_cons, actions_move hMove hSize]
  refine Session.endsAtPosition_run (Session.endsAtPosition_moveTo hPath rfl _) ?_
  intro action hMem
  obtain ⟨r, hRecord, hAction⟩ := List.mem_flatMap.1 hMem
  rw [Dialect.effect_eq hAction]
  exact hRest r hRecord

/-- A line in a path adds its points to the newest figure. So a figure, which may be a
finished shape, stays as it is exactly if another one has begun behind it or the line has no
points, and the segments start at the current position exactly if the newest figure ends
there. Both are so if the last figure was begun by a move. -/
theorem figures_after_line {start : Session} {shape : Figure} {earlier : List Figure}
    (hShape : start.path = some ⟨shape :: earlier, true⟩) {between : List Record}
    (hBetween : ∀ r ∈ between, ∀ kind ∈ Kind.ofCode? r.opcode,
      kind.replacesPath = false ∧ kind ≠ .endPath)
    {line : Record} {kind : Kind} (hKind : Kind.ofCode? line.opcode = some kind)
    (hLine : kind.drawsFromPosition = true) :
    let d := dialect limit
    let s := d.after start between
    let here := s.place s.dc.position
    let points := d.route s line
    ∃ newer kept,
      let figures := newer ++ kept :: earlier
      let figures' := figures.modifyHead (· ++ points)
      s.path = some ⟨figures, true⟩ ∧ newer.length = d.figuresBegun between ∧ shape <+: kept ∧
      ((∀ r ∈ between, ∀ kind ∈ Kind.ofCode? r.opcode,
        kind.drawsFromPosition = false ∧ kind ≠ .closeFigure) → kept = shape) ∧
      (d.after s [line]).path = some ⟨figures', true⟩ ∧
      (kept :: earlier <:+ figures' ↔ 0 < d.figuresBegun between ∨ points = []) ∧
      (segmentsOf figures' = segmentsOf figures ++ segmentsThrough (here :: points) ↔
        points = [] ∨ figures.head?.bind List.getLast? = some here) ∧
      ∀ lead move rest, between = lead ++ move :: rest →
        Kind.ofCode? move.opcode = some .moveToEx → 8 ≤ move.payload.size →
        (∀ r ∈ rest, (d.effectOf r).keepsPlace = true) →
        kept :: earlier <:+ figures' ∧
          segmentsOf figures' = segmentsOf figures ++ segmentsThrough (here :: points) := by
  intro d s here points
  have hStart : start.path = some ⟨[] ++ shape :: earlier, true⟩ := hShape
  obtain ⟨newer, kept, hPath, hLength, hKept, hSame⟩ :=
    Session.exists_figures_run hStart (actions_path hBetween)
  rw [List.length_nil, Nat.zero_add] at hLength
  have hFinal : kept :: earlier <:+ (newer ++ kept :: earlier).modifyHead (· ++ points) ↔
      0 < d.figuresBegun between ∨ points = [] := by
    rw [suffix_modifyHead_iff, hLength]
    rfl
  have hStarts := segmentsOf_modifyHead_iff (newer ++ kept :: earlier) points here
  refine ⟨newer, kept, hPath, hLength, hKept, ?_, path_after_line (by simp) hPath hKind hLine,
    hFinal, hStarts, ?_⟩
  · intro hOthers
    refine hSame (.inr (Dialect.of_mem_actionsOf ?_ hOthers))
    exact fun kind p hKind => asks_extendsFigure limit hKind.1 hKind.2 p
  · intro lead move rest hSplit hMove hSize hRest
    subst hSplit
    have hLead := (List.forall_mem_append.1 hBetween).1
    have hEnds := endsAtPosition_after_move hShape hLead hMove hSize hRest
    refine ⟨hFinal.2 (.inl ?_), hStarts.2 (.inr (hEnds.head_eq hPath))⟩
    rw [d.figuresBegun_append, figuresBegun_move hMove hSize]
    omega

/-- Behind a rectangle in a path, a move begins a figure for the line. The rectangle stays as
it is, and the line leads from the current position. -/
theorem figures_after_line_movedFirst :
    let d := dialect 1
    let start := d.after (.initial .initial) [⟨0x3B, 8, 0, 108, #[]⟩,
      ⟨0x2B, 24, 0, 116, #[10, 0, 0, 0, 10, 0, 0, 0, 20, 0, 0, 0, 20, 0, 0, 0]⟩]
    let shape : Figure := [⟨10, 10⟩, ⟨20, 10⟩, ⟨20, 20⟩, ⟨10, 20⟩, ⟨10, 10⟩]
    let move : Record := ⟨0x1B, 16, 0, 140, #[5, 0, 0, 0, 6, 0, 0, 0]⟩
    let line : Record := ⟨0x36, 16, 0, 156, #[50, 0, 0, 0, 60, 0, 0, 0]⟩
    let s := d.after start [move]
    start.path = some ⟨[shape], true⟩ ∧
      ∃ figures figures', s.path = some ⟨figures, true⟩ ∧
        (d.after s [line]).path = some ⟨figures', true⟩ ∧ [shape] <:+ figures' ∧
        segmentsOf figures' = segmentsOf figures ++ segmentsThrough [⟨5, 6⟩, ⟨50, 60⟩] := by
  intro d start shape move line s
  have hShape : start.path = some ⟨[shape], true⟩ := by decide +kernel
  have hBetween : ∀ r ∈ [move], ∀ kind ∈ Kind.ofCode? r.opcode,
      kind.replacesPath = false ∧ kind ≠ .endPath := by
    decide
  have hOthers : ∀ r ∈ [move], ∀ kind ∈ Kind.ofCode? r.opcode,
      kind.drawsFromPosition = false ∧ kind ≠ .closeFigure := by
    decide
  obtain ⟨newer, kept, hPath, -, -, hKept, hAfter, -, -, hMoved⟩ :=
    @figures_after_line 1 start shape [] hShape [move] hBetween line .lineTo rfl rfl
  obtain ⟨hFinal, hStarts⟩ := hMoved [] move [] rfl rfl (by decide) nofun
  obtain rfl := hKept hOthers
  have hLeads : s.place s.dc.position :: d.route s line = [⟨5, 6⟩, ⟨50, 60⟩] := by decide +kernel
  refine ⟨hShape, _, _, hPath, hAfter, hFinal, ?_⟩
  rw [hStarts, ← hLeads]

/-- Right behind a rectangle in a path a line goes on from the corner of the rectangle, though
the current position is elsewhere. -/
theorem figures_lineBehindRectangle :
    let d := dialect 1
    let s := d.after (.initial .initial) [⟨0x3B, 8, 0, 108, #[]⟩,
      ⟨0x2B, 24, 0, 116, #[10, 0, 0, 0, 10, 0, 0, 0, 20, 0, 0, 0, 20, 0, 0, 0]⟩]
    let line : Record := ⟨0x36, 16, 0, 140, #[50, 0, 0, 0, 60, 0, 0, 0]⟩
    let shape : Figure := [⟨10, 10⟩, ⟨20, 10⟩, ⟨20, 20⟩, ⟨10, 20⟩, ⟨10, 10⟩]
    s.path = some ⟨[shape], true⟩ ∧ s.place s.dc.position = ⟨0, 0⟩ ∧
      (d.after s [line]).path = some ⟨[shape ++ [⟨50, 60⟩]], true⟩ := by
  decide +kernel

end Emf

end Metafile
