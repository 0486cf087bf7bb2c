import Metafile.Bytes.Cursor
import Metafile.Surface.Recording
import Metafile.Svg.Document
import Metafile.Proofs.Record.Path
import Metafile.Proofs.Wmf.Chain
import Metafile.Proofs.Emf.Tiling
import Metafile.Proofs.Bytes.Part
import Metafile.Proofs.Plus.Containment
import Metafile.Proofs.Record.Encoding
import Metafile.Proofs.Emf.Layout
import Metafile.Proofs.Plus.RoundTrip
import Metafile.Proofs.Replay.Records
import Metafile.Proofs.Truncation
import Metafile.Proofs.Format.Outcome
import Metafile.Proofs.Gdi.Dialect
import Metafile.Performance
import Metafile.Proofs.Player
import Metafile.Proofs.Gdi.Play
import Metafile.Proofs.Wmf.Handler
import Metafile.Proofs.Emf.Handler
import Metafile.Proofs.Plus.Handler
import Metafile.Proofs.Performance
import Metafile.Proofs.Performance.Omission
import Metafile.Proofs.Performance.Summary
import Metafile.Proofs.Gdi.Bracket
import Metafile.Proofs.Gdi.Stroke
import Metafile.Proofs.Gdi.AbortedPath
import Metafile.Proofs.Gdi.EndedPath
import Metafile.Proofs.Plus.Failure
import Metafile.Proofs.Plus.Bracket
import Metafile.Proofs.Replay.Padding
import Metafile.Proofs.Replay.Nesting
import Metafile.Proofs.Gdi.Paint
import Metafile.Proofs.Bytes.Fields
import Metafile.Proofs.Wmf.Layout
import Metafile.Proofs.Gdi.ObjectTable
import Metafile.Proofs.Wmf.Handles
import Metafile.Proofs.Replay.Tables
import Metafile.Proofs.Surface.Lettering
import Metafile.Proofs.Svg.Canvas
import Metafile.Proofs.Svg.Markup
import Metafile.Proofs.Svg.Shape
import Metafile.Proofs.Svg.Angles
import Metafile.Proofs.Gdi.Lettering
import Metafile.Proofs.Replay.Lettering
import Metafile.Proofs.Machine.Decode
import Metafile.Proofs.Machine.Fits
import Metafile.Proofs.Machine.Reading
import Metafile.Proofs.Machine.Reading.Emf
import Metafile.Proofs.Machine.Reading.Plus
import Metafile.Proofs.Machine.Reading.Wmf
import Metafile.Proofs.Machine.Replay
import Metafile.Proofs.Machine.Session
import Metafile.Proofs.Plus.WorldTransform
import Metafile.Proofs.Geometry.WholeNumber
import Metafile.Proofs.Surface.Protocol
import Metafile.Proofs.Gdi.Protocol
import Metafile.Proofs.Replay.Protocol
import Metafile.Proofs.Surface.Drawing
import Metafile.Proofs.Svg.Drawing
import Metafile.Proofs.Replay.Drawing
import Metafile.Proofs.Record.Stored
import Metafile.Proofs.Emf.Poly
import Metafile.Proofs.Gdi.Parts
import Metafile.Proofs.Text.Encoding
import Metafile.Proofs.Text.Records
import Metafile.Proofs.Plus.Pen
import Metafile.Proofs.Wmf.Poly
import Metafile.Proofs.Geometry.Lengths
import Metafile.Proofs.Geometry.Rounding
import Metafile.Proofs.Geometry.Binary64
import Metafile.Proofs.Geometry.Bezier
import Metafile.Proofs.Replay.PlacedBox
import Metafile.Proofs.Gdi.History
import Metafile.Proofs.Bytes.Bits
import Metafile.Proofs.Wmf.Checksum
import Metafile.Proofs.Machine.Cursor
import Metafile.Proofs.Machine.Scanner
