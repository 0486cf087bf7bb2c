import Metafile.Replay
import Metafile.Svg.Canvas

/-! Pictures as documents. -/

namespace Metafile

/-- The document that shows a picture on a white background, or the error that
kept the picture from being decoded. -/
def Picture.toSvg (p : Picture) : Except HeaderError String :=
  match p.error with
  | some error => .error error
  | none => .ok (Svg.Canvas.ofCalls (p.replay .standard).calls).text

end Metafile
