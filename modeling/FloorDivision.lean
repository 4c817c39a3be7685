import FloorDivision.Main
import FloorDivision.Session.Run
import FloorDivision.Session.TypeTable
import FloorDivision.Json.Failure
import FloorDivision.Division.SlotCall
import FloorDivision.Proofs.Division.Untraced
import FloorDivision.Proofs.Number.Floor
import FloorDivision.Proofs.Division.Specialised
import FloorDivision.Proofs.Heap.Ledger
import FloorDivision.Proofs.Machine.Settles
import FloorDivision.Proofs.Division.References
import FloorDivision.Proofs.Division.Lasting
import FloorDivision.Proofs.Division.Truth
import FloorDivision.Proofs.Division.BinaryOp
import FloorDivision.Proofs.Heap.Runs
import FloorDivision.Proofs.Division.CoercionProtocol
import FloorDivision.Proofs.Division.Numbers
import FloorDivision.Proofs.Division.Integers
import FloorDivision.Proofs.Division.Derived
import FloorDivision.Proofs.Machine.Operation
import FloorDivision.Proofs.Machine.Together
import FloorDivision.Proofs.Division.Resources
import FloorDivision.Proofs.Division.Nesting
import FloorDivision.Proofs.Division.Interference
import FloorDivision.Proofs.Script.Termination
import FloorDivision.Proofs.Number.Rounding
import FloorDivision.Proofs.Decimal.Value
import FloorDivision.Proofs.Decimal.Written
import FloorDivision.Proofs.CommandLine.Literal
import FloorDivision.Proofs.CommandLine.Arguments
import FloorDivision.Proofs.Division.Unlimited
import FloorDivision.Proofs.CommandLine.Run
import FloorDivision.Proofs.Trace.Words
import FloorDivision.Proofs.Trace.Slots
import FloorDivision.Proofs.Trace.Division
import FloorDivision.Proofs.Json.Grammar
import FloorDivision.Proofs.Json.Reading
import FloorDivision.Proofs.Json.Skip
import FloorDivision.Proofs.Json.Record
import FloorDivision.Proofs.Json.Printer
import FloorDivision.Proofs.Json.Config
import FloorDivision.Proofs.Number.Nearest
import FloorDivision.Proofs.Number.Long
import FloorDivision.Proofs.Decimal.Digits
import FloorDivision.Proofs.Json.Scaled
import FloorDivision.Proofs.Json.Numbers
import FloorDivision.Proofs.Json.Floats
import FloorDivision.Proofs.Json.Object
import FloorDivision.Proofs.Division.Mixed
import FloorDivision.Proofs.Division.Atomic
import FloorDivision.Proofs.Machine.Refused
import FloorDivision.Proofs.Division.Internal
import FloorDivision.Proofs.Division.Canonical
import FloorDivision.Proofs.Decimal.Forms
import FloorDivision.Proofs.Number.DoubleFloor
import FloorDivision.Proofs.Number.Native
import FloorDivision.Proofs.Trace.Printed
import FloorDivision.Proofs.Trace.Counted
import FloorDivision.Proofs.Machine.TypeBuilder
import FloorDivision.Proofs.Machine.Inheritance
import FloorDivision.Proofs.Session.Types
