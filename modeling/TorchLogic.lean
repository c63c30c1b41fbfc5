import TorchLogic.Counting
import TorchLogic.Facing
import TorchLogic.Side
import TorchLogic.Signals
import TorchLogic.Socket
import TorchLogic.Code
import TorchLogic.Column
import TorchLogic.TruthTable.Basic
import TorchLogic.TruthTable.Record
import TorchLogic.TruthTable.Shape
import TorchLogic.Gate
import TorchLogic.Document.Datum
import TorchLogic.Document.Json
import TorchLogic.Document.Json.Token
import TorchLogic.Document.Json.Parser
import TorchLogic.Document.Json.Printer
import TorchLogic.Netlist.Component
import TorchLogic.Netlist.Basic
import TorchLogic.Netlist.Reach
import TorchLogic.Netlist.Reduce
import TorchLogic.Netlist.Feedback
import TorchLogic.Netlist.Evaluate
import TorchLogic.World.Position
import TorchLogic.World.Block
import TorchLogic.World.Basic
import TorchLogic.World.Wiring
import TorchLogic.Board.Basic
import TorchLogic.Board.Resolve
import TorchLogic.Board.Trace
import TorchLogic.Board.Synthesis
import TorchLogic.Text.Hidden
import TorchLogic.Text.CharLiteral
import TorchLogic.Layout.Basic
import TorchLogic.Layout.World
import TorchLogic.Document.Reading
import TorchLogic.Document.Writing
import TorchLogic.Text.Digits
import TorchLogic.Document.Toml
import TorchLogic.Document.Toml.Statement
import TorchLogic.Document.Toml.Space
import TorchLogic.Document.Toml.Text
import TorchLogic.Document.Toml.Moment
import TorchLogic.Document.Toml.Number
import TorchLogic.Document.Toml.Parser
import TorchLogic.Layout.File
import TorchLogic.Report
import TorchLogic.Command.Request
import TorchLogic.Command.Outcome
import TorchLogic.Main
import TorchLogic.Proofs.Fallible
import TorchLogic.Proofs.TruthTable.Apply
import TorchLogic.Proofs.TruthTable.Signature
import TorchLogic.Proofs.Netlist.WellFormed
import TorchLogic.Proofs.Netlist.Edit
import TorchLogic.Proofs.Netlist.Feedback
import TorchLogic.Proofs.Netlist.Reach
import TorchLogic.Proofs.Netlist.Renumber
import TorchLogic.Proofs.Netlist.Reduce
import TorchLogic.Proofs.Netlist.Evaluate
import TorchLogic.Proofs.Netlist.TruthTable
import TorchLogic.Proofs.Netlist.Consistency
import TorchLogic.Proofs.Netlist.Children
import TorchLogic.Proofs.Netlist.Attenuation
import TorchLogic.Proofs.Diagram.Basic
import TorchLogic.Proofs.Diagram.Faithful
import TorchLogic.Proofs.Netlist.Diagram
import TorchLogic.Proofs.World.Turn
import TorchLogic.Proofs.Board.Power
import TorchLogic.Proofs.Board.Feeds
import TorchLogic.Proofs.Board.Progress
import TorchLogic.Proofs.Board.Visit
import TorchLogic.Proofs.Board.Follow
import TorchLogic.Proofs.Board.Trace
import TorchLogic.Proofs.Board.Diagram
import TorchLogic.Proofs.Board.Square
import TorchLogic.Proofs.Board.Resolve
import TorchLogic.Proofs.Board.Lay
import TorchLogic.Proofs.Board.ReadBack
import TorchLogic.Proofs.Board.Motion
import TorchLogic.Proofs.Board.Turn
import TorchLogic.Proofs.Board.Orientation
import TorchLogic.Proofs.Board.Surroundings
import TorchLogic.Proofs.Layout.World
import TorchLogic.Proofs.World.Tables
import TorchLogic.Proofs.Board.Field
import TorchLogic.Proofs.Board.Role
import TorchLogic.Proofs.Diagram.Cut
import TorchLogic.Proofs.Board.Emptied
import TorchLogic.Proofs.Board.Agreement
import TorchLogic.Proofs.Board.Pointing
import TorchLogic.Proofs.Layout.Scan
import TorchLogic.Proofs.Layout.Defect
import TorchLogic.Proofs.Layout.Exact
import TorchLogic.Proofs.World.Shift
import TorchLogic.Proofs.Board.Shift
import TorchLogic.Proofs.Layout.Shift
import TorchLogic.Proofs.TruthTable.Rendering
import TorchLogic.Proofs.Netlist.Isomorphism
import TorchLogic.Proofs.TruthTable.Muted
import TorchLogic.Proofs.Diagram.Nesting
import TorchLogic.Proofs.Netlist.Chain
import TorchLogic.Proofs.Netlist.Nesting
import TorchLogic.Proofs.Board.Calls
import TorchLogic.Proofs.Board.Termination
import TorchLogic.Proofs.TruthTable.Record
import TorchLogic.Proofs.TruthTable.Tabulate
import TorchLogic.Proofs.TruthTable.Source
import TorchLogic.Proofs.TruthTable.Rewire
import TorchLogic.Proofs.TruthTable.Recognition
import TorchLogic.Proofs.TruthTable.Clash
import TorchLogic.Proofs.Netlist.Shifts
import TorchLogic.Proofs.Netlist.SideOrder
import TorchLogic.Proofs.Layout.Limits
import TorchLogic.Proofs.Document.Format
import TorchLogic.Proofs.Document.Reading
import TorchLogic.Proofs.Layout.Document
