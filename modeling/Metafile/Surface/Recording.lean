import Metafile.Surface.Call

/-! Surfaces that keep the calls they receive. -/

namespace Metafile

/-- The calls so far, the last one at the end. -/
structure Recording where
  calls : Array Call

namespace Recording

def empty : Recording := ⟨#[]⟩

def record (r : Recording) (call : Call) : Recording := ⟨r.calls.push call⟩

/-- A surface without fonts receives all other calls. -/
def recordFontless (r : Recording) (call : Call) : Recording :=
  if call.isSetFont then r else r.record call

def count (r : Recording) (p : Call → Bool) : Nat := r.calls.countP p

end Recording

end Metafile
