import MagicCircle.Canvas.Replay
import MagicCircle.Diagram.Complexity
import MagicCircle.Drawing.Events
import MagicCircle.Main
import MagicCircle.Description.Grammar
import MagicCircle.Description.StackMachine
import MagicCircle.Proofs.Description.Reading
import MagicCircle.Proofs.Description.Grammar
import MagicCircle.Proofs.Description.Machine
import MagicCircle.Canvas.Balance
import MagicCircle.Proofs.Drawing.Scopes
import MagicCircle.Drawing.Script
import MagicCircle.Proofs.Drawing.Script
import MagicCircle.Drawing.Failure
import MagicCircle.Proofs.Canvas.Replay
import MagicCircle.Proofs.Drawing.Log
import MagicCircle.Proofs.Drawing.FirstFailure
import MagicCircle.Proofs.Description.Diagnosis
import MagicCircle.Proofs.Description.Continuation
import MagicCircle.Proofs.Description.Limit
import MagicCircle.Proofs.Drawing.Placement
import MagicCircle.Proofs.Glyph.History
import MagicCircle.Proofs.Drawing.Inventory
import MagicCircle.Proofs.Drawing.Record
import MagicCircle.Proofs.Command.Run
import MagicCircle.Canvas.Request
import MagicCircle.Proofs.Canvas.Request
import MagicCircle.Drawing.Commission
import MagicCircle.Proofs.Drawing.Commission
import MagicCircle.Proofs.Drawing.Composition
import MagicCircle.Double.Band
import MagicCircle.Proofs.Double.Packing
import MagicCircle.Proofs.Double.Operations
import MagicCircle.Drawing.Usable
import MagicCircle.Proofs.Double.Band
import MagicCircle.Proofs.Double.Plan
import MagicCircle.Proofs.Double.Frame
import MagicCircle.Proofs.Drawing.Usable
import MagicCircle.Proofs.Json.Float
import MagicCircle.Description.Spacing
import MagicCircle.Proofs.Description.Spacing
import MagicCircle.Description.Tokens
import MagicCircle.Proofs.Description.Tokens
import MagicCircle.Diagram.Node
import MagicCircle.Proofs.Double.Nonnegative
import MagicCircle.Proofs.Diagram.Node
import MagicCircle.Drawing.Scaling
import MagicCircle.Proofs.Exact.Scaling
import MagicCircle.Proofs.Drawing.Scaling
import MagicCircle.Proofs.Text.Bytes
import MagicCircle.Proofs.Description.Local
import MagicCircle.Proofs.Report
import MagicCircle.Proofs.Glyph.Changes
import MagicCircle.Proofs.Glyph.Recovery
import MagicCircle.Proofs.Text.Scan
import MagicCircle.Proofs.Exact.Upright
import MagicCircle.Proofs.Description.Account
