import Mathlib.Data.List.DropRight
import Metafile.Proofs.Surface.Lettering
import Metafile.Proofs.Surface.Palette
import Metafile.Proofs.Surface.Protocol

/-! What is to be seen of calls. Some calls show something, each in the size, the paint and
the font that the calls before it have set, and a stroke shows the lines since the last one. -/

namespace Metafile

namespace Call

/-- The call shows something. A chain of points needs at least two of them for that. -/
def shows : Call → Bool
  | fillBackground _ | strokePath | fillRect _ | strokeRect _ | drawText _ _ => true
  | polyline points | polygon points => 2 ≤ points.length
  | _ => false

def isStrokePath : Call → Bool
  | strokePath => true
  | _ => false

/-- The size that a call gives to the surface. -/
def size? : Call → Option (Size Float)
  | setSize size => some size
  | _ => none

/-- The end of a line. -/
def lineTo? : Call → Option (Point Float)
  | lineTo point => some point
  | _ => none

/-- The lines among calls, each from the point that is moved to right before it. -/
def lines : List Call → List (Point Float × Point Float)
  | .moveTo start :: .lineTo stop :: rest => (start, stop) :: lines rest
  | _ :: rest => lines rest
  | [] => []

/-- The calls since a path was stroked the last time. -/
def sinceStroke (calls : List Call) : List Call := calls.rtakeWhile (!·.isStrokePath)

/-- A stroked path ends the run of calls that is looked at, and any other call makes it longer. -/
theorem sinceStroke_concat (calls : List Call) (call : Call) :
    sinceStroke (calls ++ [call]) =
      if call.isStrokePath then [] else sinceStroke calls ++ [call] := by
  cases hStroke : call.isStrokePath <;> simp [sinceStroke, hStroke]

/-- A move with something else than a line behind it is no part of a line. -/
theorem lines_cons {call : Call} {rest : List Call}
    (hRest : ∀ stop, rest.head? ≠ some (.lineTo stop)) : lines (call :: rest) = lines rest := by
  cases rest with
  | nil => cases call <;> rfl
  | cons next rest =>
      cases next with
      | lineTo stop => exact absurd rfl (hRest stop)
      | _ => cases call <;> rfl

section

variable {idle : List Call} (hIdle : ∀ call ∈ idle, call.tracesPath = false)
  (start stop : Point Float)

include hIdle

/-- Calls that draw nothing do not come between a move and the line from it. -/
theorem lines_append_line :
    lines (idle ++ [.moveTo start, .lineTo stop]) = [(start, stop)] := by
  induction idle with
  | nil => rfl
  | cons call rest ih =>
      obtain ⟨-, hRest⟩ := List.forall_mem_cons.1 hIdle
      rw [List.cons_append, lines_cons, ih hRest]
      intro point hHead
      cases rest with
      | nil => cases hHead
      | cons next _ =>
          obtain rfl := Option.some.inj hHead
          cases hRest _ List.mem_cons_self

theorem filterMap_lineTo?_append_line :
    (idle ++ [moveTo start, lineTo stop]).filterMap lineTo? = [stop] := by
  have hNone : idle.filterMap lineTo? = [] := by
    apply List.filterMap_eq_nil_iff.2
    intro call hMem
    have hCall := hIdle call hMem
    cases call with
    | lineTo _ => cases hCall
    | _ => rfl
  rw [List.filterMap_append, hNone]
  rfl

end

end Call

/-- A call that shows something, and the calls before it. -/
structure Drawing where
  before : List Call
  call : Call

namespace Drawing

/-- The drawings among calls that come behind others. -/
def among (before : List Call) : List Call → List Drawing
  | [] => []
  | call :: rest => (if call.shows then [⟨before, call⟩] else []) ++ among (before ++ [call]) rest

variable (d : Drawing)

/-- The size that the surface was given last. -/
def size : Size Float := (d.before.filterMap Call.size?).getLast?.getD ⟨0, 0⟩

/-- The colours and the width that are set, saved and restored. -/
def paint : Paint := (Palette.after ⟨⟨.white, .black, 1⟩, []⟩ d.before).paint

def lettering : Lettering := Lettering.after ⟨"Arial", 12⟩ d.before

/-- The calls since the last path was stroked. -/
def trace : List Call := Call.sinceStroke d.before

/-- The drawings are the calls that show something, in their order. -/
theorem map_call_among (before calls : List Call) :
    (among before calls).map (·.call) = calls.filter Call.shows := by
  induction calls generalizing before with
  | nil => rfl
  | cons call rest ih =>
      rw [among, List.map_append, ih, List.filter_cons]
      split <;> rfl

/-- Where lines are drawn one by one, a stroke finds a single line right before it, and the
other calls since the last stroke draw nothing along the path. -/
theorem trace_of_mem {before calls : List Call}
    (hCalls : LineByLine (·.tracesPath = false) calls)
    (hIdle : ∀ call ∈ Call.sinceStroke before, call.tracesPath = false) {d : Drawing}
    (hMem : d ∈ among before calls) (hCall : d.call = .strokePath) :
    ∃ idle start stop, d.trace = idle ++ [.moveTo start, .lineTo stop] ∧
      ∀ call ∈ idle, call.tracesPath = false := by
  induction hCalls generalizing before with
  | nil => cases hMem
  | @call call rest hPath _ ih =>
      rw [among, List.mem_append] at hMem
      rcases hMem with hFirst | hRest
      · split at hFirst
        · obtain rfl := List.mem_singleton.1 hFirst
          obtain rfl : call = .strokePath := hCall
          cases hPath
        · cases hFirst
      · apply ih _ hRest
        rw [Call.sinceStroke_concat]
        split
        · exact List.forall_mem_nil _
        · exact List.forall_mem_append.2 ⟨hIdle, List.forall_mem_singleton.2 hPath⟩
  | line start stop _ ih =>
      simp only [among, Call.shows, Bool.false_eq_true, if_false, if_true, List.nil_append,
        List.mem_append, List.mem_singleton] at hMem
      rcases hMem with rfl | hRest
      · refine ⟨Call.sinceStroke before, start, stop, ?_, hIdle⟩
        calc Call.sinceStroke (before ++ [.moveTo start] ++ [.lineTo stop])
          _ = Call.sinceStroke before ++ [.moveTo start] ++ [.lineTo stop] := by
            simp only [Call.sinceStroke_concat]
            rfl
          _ = Call.sinceStroke before ++ [.moveTo start, .lineTo stop] := by
            rw [List.append_assoc, List.singleton_append]
      · apply ih _ hRest
        rw [Call.sinceStroke_concat]
        exact List.forall_mem_nil _

end Drawing

end Metafile
