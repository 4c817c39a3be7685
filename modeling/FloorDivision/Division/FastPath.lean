import FloorDivision.Division.EntryPoint
import FloorDivision.Number.Floor

/-!
# Native division

Operands that are known or found to be exactly of one builtin kind are divided without asking
their types.

* `fastKind?` — the kind under which an entry point divides two operands natively.
* `divideNatively` — the quotient, not yet a value.
* `Quotient.toValue`, `Quotient.isTrue` — what becomes of it.
-/

namespace FloorDivision

/-- The result of a native division. -/
inductive Quotient where
  | int (value : Int64)
  | long (value : Int)
  | float (value : Double)
deriving DecidableEq

namespace Quotient

def toValue : Quotient → MachineM Value
  | .int value => return .int value
  | .long value => MachineM.newLong value
  | .float value => return .float value

def isTrue : Quotient → Bool
  | .int value => value != 0
  | .long value => value != 0
  | .float value => !value.isZero

end Quotient

/--
The kind that both operands have.  A known shape is trusted, an unknown one has to agree with the
other side exactly, and of two unknown ones only legacy machine integers are looked for.
-/
def fastKind? (entry : EntryPoint) (machine : Machine) (lhs rhs : Value) : Option NumberKind :=
  match entry.left, entry.right with
  | .known k, .known l => if k = l then some k else none
  | .known k, .unknown => if machine.isExact rhs k then some k else none
  | .unknown, .known k => if machine.isExact lhs k then some k else none
  | .unknown, .unknown =>
    let areInts := machine.isExact lhs .int && machine.isExact rhs .int
    if entry.level = .legacy ∧ areInts = true then some .int else none

/-- Operands of another kind than the one they are divided under. -/
def operandMismatch (kind : NumberKind) : Failure :=
  .internal s!"{kind.name} fast path reached with an operand of another type"

/-- Machine integers; a quotient beyond them becomes an integer of any size. -/
def divideInts (a b : Int64) : MachineM Quotient :=
  match intFloorDivide a b with
  | .ok (some quotient) => return .int quotient
  | .ok none => do
    MachineM.observe .escalate
    return .long (intFloorDivideWide a b)
  | .error _ => throw (.raised .integerDivisionByZero)

/-- An integer of any size, or a machine integer in its place. -/
def Machine.longOperand? (machine : Machine) : Value → Option Int
  | .int value => some value.toInt
  | .ref id =>
    match machine.heap.content? id with
    | some (.long value) => some value
    | _ => none
  | _ => none

/-- Integers of any size; small modern ones are divided as machine integers. -/
def divideLongs (lhs rhs : Value) : MachineM Quotient := do
  let machine ← get
  match machine.level, lhs, rhs with
  | .modern, .int a, .int b => divideInts a b
  | _, _, _ =>
    match machine.longOperand? lhs, machine.longOperand? rhs with
    | some a, some b =>
      match longFloorDivide a b with
      | .ok quotient => return .long quotient
      | .error _ => throw (.raised (.longDivisionByZero machine.level))
    | _, _ => throw (operandMismatch .long)

/-- Divides two operands of a kind. -/
def divideNatively (kind : NumberKind) (lhs rhs : Value) : MachineM Quotient := do
  MachineM.observe (.fastPath kind)
  match kind, lhs, rhs with
  | .int, .int a, .int b => divideInts a b
  | .long, _, _ => divideLongs lhs rhs
  | .float, .float a, .float b =>
    match floatFloorDivide a b with
    | .ok quotient => return .float quotient
    | .error _ => throw (.raised .integerDivisionByZero)
  | kind, _, _ => throw (operandMismatch kind)

end FloorDivision
