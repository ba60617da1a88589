import ByteLisp.Bytes
import ByteLisp.Code.Assembler
import ByteLisp.Code.Cursor
import ByteLisp.Code.Descriptor
import ByteLisp.Code.Error
import ByteLisp.Code.Instruction
import ByteLisp.Code.Json
import ByteLisp.Code.Listing
import ByteLisp.Code.Opcode
import ByteLisp.Datum.Basic
import ByteLisp.Datum.Conversion
import ByteLisp.Datum.Json
import ByteLisp.Datum.Text
import ByteLisp.Decimal.Shortest
import ByteLisp.Environment
import ByteLisp.Fault
import ByteLisp.Heap.Action
import ByteLisp.Heap.Basic
import ByteLisp.Heap.Chain
import ByteLisp.Heap.Equal
import ByteLisp.Heap.Parameters
import ByteLisp.Heap.Printer
import ByteLisp.Heap.Store
import ByteLisp.Image
import ByteLisp.Json.Basic
import ByteLisp.Json.Decode
import ByteLisp.Json.Numeral
import ByteLisp.Json.Reader
import ByteLisp.Json.Writer
import ByteLisp.Machine.Calling
import ByteLisp.Machine.Context
import ByteLisp.Machine.Execute
import ByteLisp.Machine.Json
import ByteLisp.Machine.OperandStack
import ByteLisp.Machine.Run
import ByteLisp.Machine.Settings
import ByteLisp.Machine.Statistics
import ByteLisp.Machine.Trace
import ByteLisp.Memory
import ByteLisp.Number.Double
import ByteLisp.Operation.Arithmetic
import ByteLisp.Operation.Functions
import ByteLisp.Operation.Lists
import ByteLisp.Operation.Sequences
import ByteLisp.PackedBytes
import ByteLisp.Parameters
import ByteLisp.Primitive.Call
import ByteLisp.Primitive.Signature
import ByteLisp.Proofs.AssemblyHistory
import ByteLisp.Proofs.Assignments
import ByteLisp.Proofs.BindingBalance
import ByteLisp.Proofs.BindingHistory
import ByteLisp.Proofs.BuiltInAgreement
import ByteLisp.Proofs.CallingConventions
import ByteLisp.Proofs.CodeSafety
import ByteLisp.Proofs.CodeWalks
import ByteLisp.Proofs.CycleDetection
import ByteLisp.Proofs.DataFaults
import ByteLisp.Proofs.DatumRewriting
import ByteLisp.Proofs.DatumRoundTrip
import ByteLisp.Proofs.Descriptors
import ByteLisp.Proofs.Diagnostics
import ByteLisp.Proofs.DynamicScope
import ByteLisp.Proofs.Encoding
import ByteLisp.Proofs.FailedChanges
import ByteLisp.Proofs.FailureSites
import ByteLisp.Proofs.FloatRange
import ByteLisp.Proofs.FunctionResolution
import ByteLisp.Proofs.ImageFormat
import ByteLisp.Proofs.InstructionParts
import ByteLisp.Proofs.IntegerArithmetic
import ByteLisp.Proofs.JsonText
import ByteLisp.Proofs.JsonTokens
import ByteLisp.Proofs.JumpTargets
import ByteLisp.Proofs.ListJoining
import ByteLisp.Proofs.ListParts
import ByteLisp.Proofs.ListRests
import ByteLisp.Proofs.ListReversal
import ByteLisp.Proofs.ListSearches
import ByteLisp.Proofs.ListShapes
import ByteLisp.Proofs.LiteralJson
import ByteLisp.Proofs.MachineInvariant
import ByteLisp.Proofs.Nesting
import ByteLisp.Proofs.NewObjects
import ByteLisp.Proofs.NormalData
import ByteLisp.Proofs.Observation
import ByteLisp.Proofs.Outcomes
import ByteLisp.Proofs.ParameterGrammar
import ByteLisp.Proofs.ParameterLists
import ByteLisp.Proofs.Phases
import ByteLisp.Proofs.ProgramHistory
import ByteLisp.Proofs.PropertyLists
import ByteLisp.Proofs.RecursiveEvaluator
import ByteLisp.Proofs.Scoping
import ByteLisp.Proofs.ShortestEncodings
import ByteLisp.Proofs.SplitStatistics
import ByteLisp.Proofs.StackEffect
import ByteLisp.Proofs.StackInstructions
import ByteLisp.Proofs.SteadyActions
import ByteLisp.Proofs.StructuralEquality
import ByteLisp.Proofs.Substrings
import ByteLisp.Proofs.Termination
import ByteLisp.Proofs.TraceContents
import ByteLisp.Proofs.Tracing
import ByteLisp.Proofs.Unwinding
import ByteLisp.Proofs.WellFormedCells
import ByteLisp.Proofs.WrittenDoubles
import ByteLisp.Proofs.WrittenFunctions
import ByteLisp.Proofs.WrittenParameters
import ByteLisp.Text.CaseTable
import ByteLisp.Text.Casing
import ByteLisp.Text.Lossy
import ByteLisp.Value.Basic
import ByteLisp.Value.Symbol
