import FloorDivision.Division.Coercion
import FloorDivision.Division.EntryPoint

/-!
# Division by slots

Each operand's type may have a slot that divides.  The right one goes first if its type derives
from the left one's; a slot that declines leaves the operands to the next one; when all have
declined, legacy classic operands may be coerced.

* `candidates` — the slots to try, in order.  The machine has the entry point's level by now.
* `divideByCandidates` — the first quotient among them.
* `divideBySlots` — the whole protocol, down to the error that names both types.
-/

namespace FloorDivision

open MachineM

/-- The type of an operand, taken from its shape where that is known. -/
def operandType (entry : EntryPoint) (shape : Shape) (machine : Machine) (value : Value) :
    Except Failure ObjectType :=
  match shape.kind? with
  | none => .ok (machine.typeOf value)
  | some kind =>
    match ObjectType.number? entry.level kind with
    | some type => .ok type
    | none => .error (.internal s!"no {kind.name} type under the {entry.level.name} level")

/-- The slot of an operand; classic types have none to offer, known shapes always do. -/
def offeredSlot? (level : Level) (shape : Shape) (type : ObjectType) : Option DivideSlot :=
  if shape.kind?.isSome || type.isNewStyle level then type.slots.divide else none

/-- The slots to try; the right one is left out if it would be the left one again. -/
def candidates (entry : EntryPoint) (leftType rightType : ObjectType) :
    List (Side × DivideSlot) :=
  let left := offeredSlot? entry.level entry.left leftType
  let right :=
    if leftType.id = rightType.id then none
    else (offeredSlot? entry.level entry.right rightType).filter fun slot => left ≠ some slot
  let fromLeft := left.toList.map (Side.left, ·)
  let fromRight := right.toList.map (Side.right, ·)
  if !entry.bothKnown && rightType.isSubtypeOf leftType then fromRight ++ fromLeft
  else fromLeft ++ fromRight

/-- The quotient by the first slot that does not decline. -/
def divideByCandidates (user : UserSlots) (lhs rhs : Value) :
    List (Side × DivideSlot) → MachineM (Option Value)
  | [] => return none
  | (side, slot) :: rest => do
    observe (.slotCall side)
    let result ← callDivide user slot lhs rhs
    if result.isNotImplemented then
      observe (.slotDeclined side)
      release result
      divideByCandidates user lhs rhs rest
    else return some result

/-- Whether operands that no slot took may be coerced. -/
def mayCoerce (entry : EntryPoint) (leftType rightType : ObjectType) : Bool :=
  entry.level.hasCoercion && !entry.bothKnown &&
    (!leftType.isNewStyle entry.level || !rightType.isNewStyle entry.level)

/-- What messages call the type of an operand: the kind's name where the shape is known. -/
def operandName (entry : EntryPoint) (shape : Shape) (type : ObjectType) : String :=
  match shape.kind? with
  | some kind => kind.typeName entry.level
  | none => type.name

/-- Nothing takes the operands. -/
def refuseOperands (entry : EntryPoint) (leftType rightType : ObjectType) : MachineM Value := do
  let left := operandName entry entry.left leftType
  let right := operandName entry entry.right rightType
  observe (.unsupported left right)
  throw (.raised (.unsupportedOperands "//" left right))

/-- Divides through the slots of the operands' types. -/
def divideBySlots (user : UserSlots) (entry : EntryPoint) (lhs rhs : Value) : MachineM Value := do
  let machine ← get
  let leftType ← operandType entry entry.left machine lhs
  let rightType ← operandType entry entry.right machine rhs
  match ← divideByCandidates user lhs rhs (candidates entry leftType rightType) with
  | some value => return value
  | none =>
    if mayCoerce entry leftType rightType then
      match ← divideByCoercion user leftType rightType lhs rhs with
      | some value => return value
      | none => refuseOperands entry leftType rightType
    else refuseOperands entry leftType rightType

end FloorDivision
