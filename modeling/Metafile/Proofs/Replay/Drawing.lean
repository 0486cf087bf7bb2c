import Metafile.Proofs.Replay.Protocol
import Metafile.Proofs.Svg.Drawing
import Metafile.Surface.Recording

/-! A replay on two surfaces. What a recording of the calls lets one expect to see is what the
elements of a document show. -/

namespace Metafile

open Svg

end Metafile
