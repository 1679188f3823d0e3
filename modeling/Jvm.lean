import Jvm.Access
import Jvm.Attribute.Basic
import Jvm.Attribute.Decoder
import Jvm.Attribute.StackMap
import Jvm.Bytes
import Jvm.ClassFile.Basic
import Jvm.ClassFile.Builder
import Jvm.ClassFile.Parser
import Jvm.ClassFile.Writer
import Jvm.Command.Execute
import Jvm.Command.Flag
import Jvm.Command.Help
import Jvm.Command.Line
import Jvm.Command.Reader
import Jvm.Constant.Basic
import Jvm.Constant.Pool
import Jvm.Descriptor
import Jvm.Document.Basic
import Jvm.Document.Cbor
import Jvm.Document.Json
import Jvm.Document.Yaml.Layout
import Jvm.Document.Yaml.Resolution
import Jvm.Document.Yaml.Scalar
import Jvm.Fault
import Jvm.Files.Archive
import Jvm.Files.ClassPath
import Jvm.Files.Path
import Jvm.Files.Snapshot
import Jvm.Float.Binary
import Jvm.Float.Decimal
import Jvm.Float.Range
import Jvm.Instruction.Basic
import Jvm.Instruction.Listing
import Jvm.Instruction.Opcode
import Jvm.Kind
import Jvm.Machine.Arithmetic
import Jvm.Machine.Class
import Jvm.Machine.Effect
import Jvm.Machine.Execution
import Jvm.Machine.Frame
import Jvm.Machine.Heap
import Jvm.Machine.Invocation
import Jvm.Machine.MethodArea
import Jvm.Machine.Native
import Jvm.Machine.Resolution
import Jvm.Machine.Runtime
import Jvm.Machine.SlotTables
import Jvm.Machine.Thread
import Jvm.Machine.Value
import Jvm.Machine.World
import Jvm.Main
import Jvm.Proofs.Builder.Building
import Jvm.Proofs.ClassFile.AttributeCodec
import Jvm.Proofs.ClassFile.AttributeLengths
import Jvm.Proofs.ClassFile.AttributeNesting
import Jvm.Proofs.ClassFile.ByteCodec
import Jvm.Proofs.ClassFile.Decoding
import Jvm.Proofs.ClassFile.EndOfInput
import Jvm.Proofs.ClassFile.ModifiedUtf8
import Jvm.Proofs.ClassFile.PoolCodec
import Jvm.Proofs.ClassFile.Rejection
import Jvm.Proofs.ClassFile.Rereading
import Jvm.Proofs.ClassFile.Resolved
import Jvm.Proofs.ClassFile.RoundTrip
import Jvm.Proofs.ClassFile.StackMapCodec
import Jvm.Proofs.ClassFile.SymbolicLookups
import Jvm.Proofs.Command.ProgramArguments
import Jvm.Proofs.Command.Stopping
import Jvm.Proofs.Descriptors
import Jvm.Proofs.Faults
import Jvm.Proofs.Instruction.Encoding
import Jvm.Proofs.Instruction.Printing
import Jvm.Proofs.Instruction.Sweep
import Jvm.Proofs.Instruction.Tiling
import Jvm.Proofs.Machine.Assignability
import Jvm.Proofs.Machine.Balance
import Jvm.Proofs.Machine.CallOperands
import Jvm.Proofs.Machine.CallingConvention
import Jvm.Proofs.Machine.Completion
import Jvm.Proofs.Machine.Composition
import Jvm.Proofs.Machine.Contents
import Jvm.Proofs.Machine.Control
import Jvm.Proofs.Machine.DepthLimit
import Jvm.Proofs.Machine.Effects
import Jvm.Proofs.Machine.EntryPoint
import Jvm.Proofs.Machine.Failures
import Jvm.Proofs.Machine.FieldLayout
import Jvm.Proofs.Machine.FieldSearch
import Jvm.Proofs.Machine.Guarding
import Jvm.Proofs.Machine.Holding
import Jvm.Proofs.Machine.Initialization
import Jvm.Proofs.Machine.IntegerArithmetic
import Jvm.Proofs.Machine.InterfaceMethods
import Jvm.Proofs.Machine.Linking
import Jvm.Proofs.Machine.LoadOrder
import Jvm.Proofs.Machine.Locality
import Jvm.Proofs.Machine.Move
import Jvm.Proofs.Machine.Nesting
import Jvm.Proofs.Machine.Observation
import Jvm.Proofs.Machine.PlainSearch
import Jvm.Proofs.Machine.Provenance
import Jvm.Proofs.Machine.References
import Jvm.Proofs.Machine.Residence
import Jvm.Proofs.Machine.Resolving
import Jvm.Proofs.Machine.Retrying
import Jvm.Proofs.Machine.RunInduction
import Jvm.Proofs.Machine.Selection
import Jvm.Proofs.Machine.StackWords
import Jvm.Proofs.Machine.StringConstants
import Jvm.Proofs.Machine.SuperCalls
import Jvm.Proofs.Machine.SuperclassesFirst
import Jvm.Proofs.Machine.Transparency
import Jvm.Proofs.Machine.Triggers
import Jvm.Proofs.Machine.Typing
import Jvm.Proofs.Machine.Untouched
import Jvm.Proofs.Machine.WideLocals
import Jvm.Proofs.Report.Layout
import Jvm.Proofs.Report.LineRecords
import Jvm.Proofs.Texts
import Jvm.Report.Describe
import Jvm.Report.Disassembly
import Jvm.Report.Format
import Jvm.Report.Lines
import Jvm.Report.Summary
import Jvm.Settings.Basic
import Jvm.Settings.Load
import Jvm.Text.Calendar
import Jvm.Text.Case
import Jvm.Text.Decimal
import Jvm.Text.Hex
import Jvm.Text.Integer
import Jvm.Text.ModifiedUtf8
import Jvm.Text.Printable
import Jvm.Text.Quoted
import Jvm.Toml.Lexeme
import Jvm.Toml.Reader
import Jvm.Toml.Table
