import FloorDivision.Division.SlotCall

/-!
# Division by coercion

Where a legacy type predates the slot protocol, the operands may be converted to a common type
whose slot then divides them.

* `divideCoerced` — what a converted pair comes to.
* `divideByCoercionOf` — the conversion by one side's type.
* `divideByCoercion` — the left type's conversion, then the right type's.
-/

namespace FloorDivision

open MachineM

/-- What an attempt at conversion led to. -/
inductive CoercionOutcome where
  /-- A quotient. -/
  | computed (value : Value)
  /-- The converted operands are not divided either. -/
  | unsupported
  /-- Nothing was converted to a type that divides; another conversion may be tried. -/
  | undecided

/-- Divides a converted pair through its left type's slot, and gives the pair back. -/
def divideCoerced (user : UserSlots) (side : Side) :
    Option (Value × Value) → MachineM CoercionOutcome
  | none => do
    observe (.coerce side false)
    return .undecided
  | some (lhs, rhs) => do
    observe (.coerce side true)
    releasingBoth lhs rhs do
      match ((← get).typeOf lhs).slots.divide with
      | none => return .undecided
      | some slot =>
        let result ← callDivide user slot lhs rhs
        if result.isNotImplemented then
          release result
          return .unsupported
        else return .computed result

/-- A pair with the side's own operand first, put in the order of the operands, or back. -/
def Side.inOrder {α : Type} : Side → α × α → α × α
  | .left, pair => pair
  | .right, pair => pair.swap

/-- The conversion by one side's type, which takes its own operand first; the pair is put in order
before it is divided. -/
def divideByCoercionOf (user : UserSlots) (side : Side) (slot : Option CoerceSlot)
    (lhs rhs : Value) : MachineM CoercionOutcome := do
  let some slot := slot | return .undecided
  let asked := side.inOrder (lhs, rhs)
  divideCoerced user side ((← callCoerce user slot asked.1 asked.2).map side.inOrder)

/-- The quotient of converted operands; none if no conversion leads to one. -/
def divideByCoercion (user : UserSlots) (leftType rightType : ObjectType) (lhs rhs : Value) :
    MachineM (Option Value) := do
  match ← divideByCoercionOf user .left leftType.slots.coerce lhs rhs with
  | .computed value => return some value
  | .unsupported => return none
  | .undecided =>
    match ← divideByCoercionOf user .right rightType.slots.coerce lhs rhs with
    | .computed value => return some value
    | .unsupported | .undecided => return none

end FloorDivision
