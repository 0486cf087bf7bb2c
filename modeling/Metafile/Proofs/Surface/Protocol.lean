import Metafile.Surface.Plotter

/-! What a surface can rely on in the calls that records make. Lines are drawn one by one: a
line starts at a point of its own, is drawn from there and stroked at once, and nothing else
is drawn along a path. Other calls are looked at one at a time. -/

namespace Metafile

/-- Draws along a path: a line of it, or the whole of it. -/
def Call.tracesPath : Call → Bool
  | lineTo _ | strokePath => true
  | _ => false

/-- A call that the records of every format may make: the size of the surface stays, lines
have a width, and nothing is drawn along a path. -/
def Call.IsRegular : Call → Prop
  | setSize _ | lineTo _ | strokePath => False
  | setLineWidth width => 0 < width
  | _ => True

/-- A regular call that leaves the background alone and has something to show. -/
def Call.IsSubstantial : Call → Prop
  | fillBackground _ => False
  | polyline points | polygon points => points ≠ []
  | drawText text _ => text ≠ ""
  | setFont _ size => 0 < size
  | call => call.IsRegular

/-- A call that draws something visible keeps the order of calls as well. -/
theorem Call.IsSubstantial.isRegular {call : Call} (hCall : call.IsSubstantial) :
    call.IsRegular := by
  cases call <;> first | exact hCall | trivial

/-- A regular call stands for itself: it is none of those that trace a path. -/
theorem Call.IsRegular.tracesPath {call : Call} (hCall : call.IsRegular) :
    call.tracesPath = false := by
  cases call <;> first | rfl | exact hCall.elim

/-- A stroke of any width can be seen. Widths that are not positive are drawn as one pixel. -/
theorem visibleWidth_pos (width : Float) : 0 < visibleWidth width := by
  unfold visibleWidth
  split
  · assumption
  · decide

/-- Sequences of good calls and of whole lines. -/
inductive LineByLine (Good : Call → Prop) : List Call → Prop where
  | nil : LineByLine Good []
  | call {call : Call} {rest : List Call} (hGood : Good call) (later : LineByLine Good rest) :
      LineByLine Good (call :: rest)
  | line (start stop : Point Float) {rest : List Call} (later : LineByLine Good rest) :
      LineByLine Good (.moveTo start :: .lineTo stop :: .strokePath :: rest)

/-- What an action draws in every state, sequences of actions draw in every state, if it can
be put together. -/
theorem Plotter.holds_calls {σ α : Type} (m : Plotter σ α) {Holds : List Call → Prop}
    (hNil : Holds [])
    (hAppend : ∀ first second, Holds first → Holds second → Holds (first ++ second))
    (hDraw : ∀ s action, Holds (m.draw s action)) (s : σ) (actions : List α) :
    Holds (m.calls s actions) := by
  induction actions generalizing s with
  | nil => exact hNil
  | cons action rest ih => exact hAppend _ _ (hDraw s action) (ih _)

namespace LineByLine

variable {Good : Call → Prop} {calls first second : List Call}

/-- Calls that come line by line may be put behind each other, since each part ends behind a
whole line. -/
theorem append (hFirst : LineByLine Good first) (hSecond : LineByLine Good second) :
    LineByLine Good (first ++ second) := by
  induction hFirst with
  | nil => exact hSecond
  | call hGood _ ih => exact .call hGood ih
  | line start stop _ ih => exact .line start stop ih

/-- Calls that are all good by themselves come line by line, as none of them is part of a line. -/
theorem of_forall (hGood : ∀ call ∈ calls, Good call) : LineByLine Good calls := by
  induction calls with
  | nil => exact .nil
  | cons call rest ih =>
      obtain ⟨hCall, hRest⟩ := List.forall_mem_cons.1 hGood
      exact .call hCall (ih hRest)

/-- What is asked of the calls apart from lines may be weakened. -/
theorem mono {Better : Call → Prop} (hCalls : LineByLine Better calls)
    (hGood : ∀ call, Better call → Good call) : LineByLine Good calls := by
  induction hCalls with
  | nil => exact .nil
  | call hBetter _ ih => exact .call (hGood _ hBetter) ih
  | line start stop _ ih => exact .line start stop ih

/-- A plotter that draws every action line by line draws any number of them so. The state does
not matter, since nothing is known about the one that a step finds. -/
theorem calls_of_draw {σ α : Type} (m : Plotter σ α)
    (hDraw : ∀ s action, LineByLine Good (m.draw s action)) (s : σ) (actions : List α) :
    LineByLine Good (m.calls s actions) :=
  m.holds_calls .nil (fun _ _ => append) hDraw s actions

theorem good_of_mem (hCalls : LineByLine Good calls) {call : Call} (hMem : call ∈ calls)
    (hMove : call.isMoveTo = false) (hPath : call.tracesPath = false) : Good call := by
  induction hCalls with
  | nil => cases hMem
  | call hGood _ ih =>
      rcases List.mem_cons.1 hMem with rfl | hRest
      · exact hGood
      · exact ih hRest
  | line start stop _ ih =>
      rcases List.mem_cons.1 hMem with rfl | hMem
      · cases hMove
      rcases List.mem_cons.1 hMem with rfl | hMem
      · cases hPath
      rcases List.mem_cons.1 hMem with rfl | hRest
      · cases hPath
      · exact ih hRest

/-- A call along a path is the second or the third of the three calls of a line. -/
theorem line_of_tracesPath (hCalls : LineByLine Good calls)
    (hGood : ∀ call, Good call → call.tracesPath = false) {before after : List Call} {call : Call}
    (hEq : calls = before ++ call :: after) (hPath : call.tracesPath) :
    ∃ earlier start stop,
      (before = earlier ++ [.moveTo start] ∧ call = .lineTo stop ∧
        after.head? = some .strokePath) ∨
      (before = earlier ++ [.moveTo start, .lineTo stop] ∧ call = .strokePath) := by
  induction hCalls generalizing before with
  | nil => simp at hEq
  | @call first rest hFirst _ ih =>
      rcases before with _ | ⟨_, before⟩
      · obtain ⟨rfl, -⟩ := List.cons.inj hEq
        rw [hGood first hFirst] at hPath
        cases hPath
      · obtain ⟨rfl, hRest⟩ := List.cons.inj hEq
        obtain ⟨earlier, start, stop, ⟨rfl, hLine⟩ | ⟨rfl, hStroke⟩⟩ := ih hRest
        · exact ⟨first :: earlier, start, stop, .inl ⟨rfl, hLine⟩⟩
        · exact ⟨first :: earlier, start, stop, .inr ⟨rfl, hStroke⟩⟩
  | line start stop later ih =>
      rcases before with _ | ⟨_, _ | ⟨_, _ | ⟨_, before⟩⟩⟩
      · obtain ⟨rfl, -⟩ := List.cons.inj hEq
        cases hPath
      · cases hEq
        exact ⟨[], start, stop, .inl ⟨rfl, rfl, rfl⟩⟩
      · cases hEq
        exact ⟨[], start, stop, .inr ⟨rfl, rfl⟩⟩
      · simp only [List.cons_append, List.cons.injEq] at hEq
        obtain ⟨rfl, rfl, rfl, hRest⟩ := hEq
        obtain ⟨earlier, first, last, ⟨rfl, hLine⟩ | ⟨rfl, hStroke⟩⟩ := ih hRest
        · exact ⟨_ :: _ :: _ :: earlier, first, last, .inl ⟨rfl, hLine⟩⟩
        · exact ⟨_ :: _ :: _ :: earlier, first, last, .inr ⟨rfl, hStroke⟩⟩

section

variable (hCalls : LineByLine Good calls) (hGood : ∀ call, Good call → call.tracesPath = false)
  {before after : List Call}

include hCalls hGood

/-- Every line has its start right before it and its stroke right behind it. -/
theorem around_lineTo {stop : Point Float} (hEq : calls = before ++ .lineTo stop :: after) :
    (∃ start, before.getLast? = some (.moveTo start)) ∧ after.head? = some .strokePath := by
  obtain ⟨earlier, start, _, ⟨rfl, -, hStroke⟩ | ⟨-, hCall⟩⟩ :=
    hCalls.line_of_tracesPath hGood hEq rfl
  · exact ⟨⟨start, by simp⟩, hStroke⟩
  · cases hCall

/-- A stroke comes right behind a line. -/
theorem before_strokePath (hEq : calls = before ++ .strokePath :: after) :
    ∃ stop, before.getLast? = some (.lineTo stop) := by
  obtain ⟨earlier, _, stop, ⟨-, hCall, -⟩ | ⟨rfl, -⟩⟩ := hCalls.line_of_tracesPath hGood hEq rfl
  · cases hCall
  · exact ⟨stop, by simp⟩

end

end LineByLine

/-- What a surface can rely on in the calls of records. -/
structure CallProtocol (calls : List Call) : Prop where
  setSize : ∀ size, .setSize size ∉ calls
  setLineWidth : ∀ width, .setLineWidth width ∈ calls → 0 < width

/-- What a surface can rely on besides if the records ask for no background and draw their
lines one by one. -/
structure LineProtocol (calls : List Call) : Prop extends CallProtocol calls where
  fillBackground : ∀ color, .fillBackground color ∉ calls
  lineTo : ∀ before stop after, calls = before ++ .lineTo stop :: after →
    (∃ start, before.getLast? = some (.moveTo start)) ∧ after.head? = some .strokePath
  strokePath : ∀ before after, calls = before ++ .strokePath :: after →
    ∃ stop, before.getLast? = some (.lineTo stop)
  polyline : ∀ points, .polyline points ∈ calls → points ≠ []
  polygon : ∀ points, .polygon points ∈ calls → points ≠ []
  drawText : ∀ text point, .drawText text point ∈ calls → text ≠ ""
  setFont : ∀ family size, .setFont family size ∈ calls → 0 < size

namespace LineByLine

variable {calls : List Call}

/-- Regular calls that come line by line keep the protocol of a surface. -/
theorem callProtocol (hCalls : LineByLine Call.IsRegular calls) : CallProtocol calls where
  setSize _ hMem := hCalls.good_of_mem hMem rfl rfl
  setLineWidth _ hMem := hCalls.good_of_mem hMem rfl rfl

/-- If they are substantial besides, no line is without length. -/
theorem lineProtocol (hCalls : LineByLine Call.IsSubstantial calls) : LineProtocol calls where
  toCallProtocol := (hCalls.mono fun _ => Call.IsSubstantial.isRegular).callProtocol
  fillBackground _ hMem := hCalls.good_of_mem hMem rfl rfl
  lineTo _ _ _ hEq := hCalls.around_lineTo (fun _ hCall => hCall.isRegular.tracesPath) hEq
  strokePath _ _ hEq := hCalls.before_strokePath (fun _ hCall => hCall.isRegular.tracesPath) hEq
  polyline _ hMem := hCalls.good_of_mem hMem rfl rfl
  polygon _ hMem := hCalls.good_of_mem hMem rfl rfl
  drawText _ _ hMem := hCalls.good_of_mem hMem rfl rfl
  setFont _ _ hMem := hCalls.good_of_mem hMem rfl rfl

end LineByLine

end Metafile
