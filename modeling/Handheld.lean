import Handheld.Binary.Format
import Handheld.Binary.Shortest
import Handheld.Binary.Single
import Handheld.Clock
import Handheld.Command.Arguments
import Handheld.Command.Console
import Handheld.Command.Error
import Handheld.Command.Execute
import Handheld.Command.FileTree
import Handheld.Command.Host
import Handheld.Command.Path
import Handheld.Comparison
import Handheld.Compiler
import Handheld.Construct.Basic
import Handheld.Construct.Build
import Handheld.Construct.Context
import Handheld.Construct.Error
import Handheld.Construct.Expand
import Handheld.Construct.Pool
import Handheld.Decimal
import Handheld.Diagnostic.Basic
import Handheld.Diagnostic.Catalog
import Handheld.Diagnostic.Render
import Handheld.Fault
import Handheld.Instruction.Barcode
import Handheld.Instruction.Basic
import Handheld.Instruction.Display
import Handheld.Instruction.Operand
import Handheld.Instruction.Setting
import Handheld.Instruction.Trace
import Handheld.Json.Basic
import Handheld.Json.Decode
import Handheld.Json.Instruction
import Handheld.Json.Numeral
import Handheld.Json.Operand
import Handheld.Json.Parser
import Handheld.Json.Printer
import Handheld.Json.Source
import Handheld.Key
import Handheld.KeyQueue
import Handheld.Label
import Handheld.LabelTable
import Handheld.Line.Basic
import Handheld.Line.Decode
import Handheld.Line.Field
import Handheld.Line.Frame
import Handheld.Line.Head
import Handheld.Line.Reader
import Handheld.Log
import Handheld.Machine.Basic
import Handheld.Machine.Execute
import Handheld.Machine.InputField
import Handheld.Machine.LineInput
import Handheld.Machine.Step
import Handheld.Main
import Handheld.Optimizer
import Handheld.Program
import Handheld.ProgramFile
import Handheld.Record.Area
import Handheld.Record.File
import Handheld.Register
import Handheld.RegisterStore
import Handheld.Screen
import Handheld.Text.Basic
import Handheld.Text.Quoted
import Handheld.Text.Utf8
import Handheld.Transfer
import Handheld.Unicode.Category
import Handheld.Unicode.Combining
import Handheld.Unicode.Printable
import Handheld.Value
import Handheld.Word
import Handheld.Proofs.Binary.Exact
import Handheld.Proofs.Compiler.Compile
import Handheld.Proofs.Compiler.Emitted
import Handheld.Proofs.Compiler.Encounters
import Handheld.Proofs.Compiler.Faults
import Handheld.Proofs.Compiler.Legible
import Handheld.Proofs.Compiler.Meaning
import Handheld.Proofs.Compiler.Menus
import Handheld.Proofs.Compiler.Obstacles
import Handheld.Proofs.Compiler.RoundTrip
import Handheld.Proofs.Compiler.Scopes
import Handheld.Proofs.Compiler.Temporaries
import Handheld.Proofs.Construct.Balance
import Handheld.Proofs.Construct.Converted
import Handheld.Proofs.Construct.Depth
import Handheld.Proofs.Construct.Emitted
import Handheld.Proofs.Construct.Growth
import Handheld.Proofs.Construct.Pools
import Handheld.Proofs.Construct.Repeated
import Handheld.Proofs.Construct.Sound
import Handheld.Proofs.Construct.Success
import Handheld.Proofs.Evaluation.Basic
import Handheld.Proofs.Evaluation.Fate
import Handheld.Proofs.Evaluation.Framed
import Handheld.Proofs.Evaluation.Menu
import Handheld.Proofs.Evaluation.Nesting
import Handheld.Proofs.Evaluation.Pages
import Handheld.Proofs.Evaluation.Realized
import Handheld.Proofs.Evaluation.Shapes
import Handheld.Proofs.Flow.Linked
import Handheld.Proofs.Flow.Run
import Handheld.Proofs.Input.Echo
import Handheld.Proofs.Input.Editor
import Handheld.Proofs.Input.Hidden
import Handheld.Proofs.Input.Keys
import Handheld.Proofs.Input.Turn
import Handheld.Proofs.Json.Instruction
import Handheld.Proofs.Json.Operand
import Handheld.Proofs.Json.Rendering
import Handheld.Proofs.Keys.Delivery
import Handheld.Proofs.Line.Bounds
import Handheld.Proofs.Line.Fields
import Handheld.Proofs.Line.FileNames
import Handheld.Proofs.Line.Fitting
import Handheld.Proofs.Line.Frames
import Handheld.Proofs.Line.Framing
import Handheld.Proofs.Line.Number
import Handheld.Proofs.Line.Packing
import Handheld.Proofs.Line.RoundTrip
import Handheld.Proofs.Line.Spelling
import Handheld.Proofs.Machine.Faultless
import Handheld.Proofs.Machine.Footprint
import Handheld.Proofs.Machine.Operation
import Handheld.Proofs.Machine.Range
import Handheld.Proofs.Machine.Reached
import Handheld.Proofs.Machine.Records
import Handheld.Proofs.Machine.Renamed
import Handheld.Proofs.Machine.Safe
import Handheld.Proofs.Machine.Sane
import Handheld.Proofs.Machine.Search
import Handheld.Proofs.Machine.Strings
import Handheld.Proofs.Machine.Trace
import Handheld.Proofs.Machine.View
import Handheld.Proofs.Optimizer.Correction
import Handheld.Proofs.Optimizer.NormalForm
import Handheld.Proofs.Optimizer.Optimize
import Handheld.Proofs.Optimizer.Removal
import Handheld.Proofs.Optimizer.Resolution
import Handheld.Proofs.Optimizer.Retarget
import Handheld.Proofs.Optimizer.Rounds
import Handheld.Proofs.Optimizer.Simultaneous
import Handheld.Proofs.Program.Link
import Handheld.Proofs.Program.Renamed
import Handheld.Proofs.Program.WellLabeled
import Handheld.Proofs.ProgramFile.Decoded
import Handheld.Proofs.ProgramFile.Encoded
import Handheld.Proofs.ProgramFile.Header
import Handheld.Proofs.ProgramFile.RoundTrip
import Handheld.Proofs.ProgramFile.Running
import Handheld.Proofs.Record.Lengths
import Handheld.Proofs.Record.Pointer
import Handheld.Proofs.Record.Search
import Handheld.Proofs.Record.Sequence
import Handheld.Proofs.Register.History
import Handheld.Proofs.Screen.Cells
import Handheld.Proofs.Screen.Mirror
import Handheld.Proofs.Text.Encoding
import Handheld.Proofs.Text.Splice
import Handheld.Proofs.Text.Utf8
