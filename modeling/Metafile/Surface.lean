import Metafile.Surface.Recording

/-! Surfaces of any kind. A surface takes one call after another. It gives no answers, so that
whoever draws on it never learns what became of a call. -/

namespace Metafile

class Surface (ω : Type) where
  /-- What a call makes of a surface. -/
  receive : ω → Call → ω

namespace Surface

variable {ω : Type} [Surface ω]

/-- The surface behind several calls. -/
def receiveAll (canvas : ω) (calls : List Call) : ω := calls.foldl receive canvas

@[simp]
theorem receiveAll_nil (canvas : ω) : receiveAll canvas [] = canvas := rfl

@[simp]
theorem receiveAll_cons (canvas : ω) (call : Call) (calls : List Call) :
    receiveAll canvas (call :: calls) = receiveAll (receive canvas call) calls := rfl

/-- Calls may be handed over in two parts. -/
@[simp]
theorem receiveAll_append (canvas : ω) (first second : List Call) :
    receiveAll canvas (first ++ second) = receiveAll (receiveAll canvas first) second :=
  List.foldl_append ..

end Surface

instance : Surface Recording := ⟨Recording.record⟩

/-- A recording holds the calls that it was made of and then those that it received. -/
theorem Recording.toList_calls_receiveAll (r : Recording) (calls : List Call) :
    (Surface.receiveAll r calls).calls.toList = r.calls.toList ++ calls := by
  induction calls generalizing r with
  | nil => exact (List.append_nil _).symm
  | cons call rest ih =>
      rw [Surface.receiveAll_cons, ih]
      simp [Surface.receive, record]

end Metafile
