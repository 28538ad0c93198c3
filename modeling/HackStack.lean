import HackStack.Assembly.Assembler
import HackStack.Assembly.Code
import HackStack.Assembly.Mnemonic
import HackStack.Assembly.Statement
import HackStack.Assembly.Symbol
import HackStack.Build.OnDisk
import HackStack.Build.Run
import HackStack.Build.Unit
import HackStack.Command.Basic
import HackStack.Command.Build
import HackStack.Command.Dump
import HackStack.Command.Flag
import HackStack.Command.Interact
import HackStack.Files.Path
import HackStack.Files.Tree
import HackStack.Log.Level
import HackStack.Log.Record
import HackStack.Lowering.Block
import HackStack.Lowering.Emitter
import HackStack.Lowering.Generator
import HackStack.Lowering.Program
import HackStack.Lowering.Request
import HackStack.Lowering.Sink
import HackStack.Lowering.Symbol
import HackStack.Machine.Cpu
import HackStack.Machine.Ram
import HackStack.Machine.Word
import HackStack.Main
import HackStack.Repl.History
import HackStack.Repl.Input
import HackStack.Repl.Session
import HackStack.Settings.Basic
import HackStack.Settings.Complaint
import HackStack.Settings.Document
import HackStack.Settings.Load
import HackStack.Settings.Value
import HackStack.Table.Basic
import HackStack.Table.Summary
import HackStack.Table.Title
import HackStack.Text.Base64
import HackStack.Text.Basic
import HackStack.Text.Blank
import HackStack.Text.Case
import HackStack.Text.Control
import HackStack.Text.Glyph
import HackStack.Text.Letter
import HackStack.Text.Printable
import HackStack.Text.Quoted
import HackStack.Text.Ranges
import HackStack.Text.Template
import HackStack.Text.Width
import HackStack.Vm.Command
import HackStack.Vm.Line
import HackStack.Vm.Name
import HackStack.Vm.Op
import HackStack.Vm.Segment
import HackStack.Vm.Source
import HackStack.Yaml.Cursor
import HackStack.Yaml.Feed
import HackStack.Yaml.Moment
import HackStack.Yaml.Node
import HackStack.Yaml.Number
import HackStack.Yaml.Queue
import HackStack.Yaml.Scalar
import HackStack.Yaml.Tag
import HackStack.Yaml.Token
import HackStack.Proofs.Lowering.Symbol
import HackStack.Proofs.Lowering.Emission
import HackStack.Proofs.Lowering.Run
import HackStack.Proofs.Lowering.Scope
import HackStack.Proofs.Lowering.Mention
import HackStack.Proofs.Lowering.Sources
import HackStack.Proofs.Assembly.Reading
import HackStack.Proofs.Assembly.Image
import HackStack.Proofs.Vm.Accepted
import HackStack.Proofs.Lowering.Legible
import HackStack.Proofs.Lowering.Layout
import HackStack.Proofs.Machine.Step
import HackStack.Proofs.Machine.Straight
import HackStack.Proofs.Lowering.Effect
import HackStack.Proofs.Lowering.Frame
import HackStack.Proofs.Simulation.Program
import HackStack.Proofs.Lowering.Control
import HackStack.Proofs.Assembly.Variables
import HackStack.Proofs.Assembly.Translation
import HackStack.Proofs.Assembly.Computation
import HackStack.Proofs.Assembly.Grammar
import HackStack.Proofs.Assembly.Operand
import HackStack.Proofs.Simulation.Statics
import HackStack.Proofs.Simulation.Placement
import HackStack.Proofs.Simulation.Stack
import HackStack.Proofs.Simulation.Represents
import HackStack.Proofs.Simulation.Execute
import HackStack.Proofs.Simulation.Run
import HackStack.Proofs.Text.Lines
import HackStack.Proofs.Text.Utf8
import HackStack.Proofs.Text.Words
import HackStack.Proofs.Text.Comment
import HackStack.Proofs.Vm.Name
import HackStack.Proofs.Vm.Grammar
import HackStack.Proofs.Vm.RoundTrip
import HackStack.Proofs.Vm.Source
import HackStack.Proofs.Lowering.FreeOperands
import HackStack.Proofs.Repl.Batch
import HackStack.Proofs.Build.Outcome
import HackStack.Proofs.Files.Path
import HackStack.Proofs.Files.Tree
import HackStack.Proofs.Build.Output
import HackStack.Proofs.Lowering.FunctionName
import HackStack.Proofs.Lowering.Fragment
import HackStack.Proofs.Lowering.CallReturn
import HackStack.Proofs.Lowering.Comparison
import HackStack.Proofs.Lowering.Fault
import HackStack.Proofs.Machine.Trace
import HackStack.Proofs.Lowering.Pace
import HackStack.Proofs.Lowering.DataEffect
import HackStack.Proofs.Lowering.Isolation
import HackStack.Proofs.Lowering.Entry
import HackStack.Proofs.Machine.Limit
import HackStack.Proofs.Machine.SelfLoop
import HackStack.Proofs.Assembly.Numbering
import HackStack.Proofs.Lowering.Remark
import HackStack.Proofs.Build.Reports
