import FloorDivision.Division.Divide
import FloorDivision.Script.Expr

/-!
# Evaluating expression programs

* `Expr.eval`, `CoerceExpr.eval` — evaluation, given what slots of user types do.
* `UserSlots.ofScripts` — slots that evaluate their scripts.  A script that divides may run into
  slots again, so they are defined by the number of slot calls that may be nested.

Every evaluation gives back what it acquired, except what it returns.
-/

namespace FloorDivision

open MachineM

/-- What names in an expression stand for. -/
structure Scope where
  /-- The operands of the slot that is being run. -/
  operands : Option (Value × Value) := none
  bindings : List (String × Value) := []

namespace Scope

def fetchOperand (scope : Scope) (isSecond : Bool) : MachineM Value :=
  match scope.operands with
  | some (first, second) => retain (if isSecond then second else first)
  | none => throw (.internal "no operands outside a slot")

def fetchVariable (scope : Scope) (name : String) : MachineM Value :=
  match scope.bindings.lookup name with
  | some value => retain value
  | none => throw (.internal s!"no variable {name}")

end Scope

/-- Looks at a value that is then given back. -/
def inspect (value : Value) (look : Machine → Value → α) : MachineM α := do
  let result := look (← get) value
  release value
  return result

/-- Evaluates both operands, divides them and gives them back. -/
def withOperands (left right : MachineM Value) (operate : Value → Value → MachineM α) :
    MachineM α := do
  let (lhs, rhs) ← both left right
  releasingBoth lhs rhs (operate lhs rhs)

/-- Whether an object is the given machine integer. -/
def isInt (object : Object) (number : Int64) : Bool := object.isEqual (.int number)

mutual

def Expr.eval (user : UserSlots) (scope : Scope) : Expr → MachineM Value
  | .object object => ofObject object
  | .operand isSecond => scope.fetchOperand isSecond
  | .variable name => scope.fetchVariable name
  | .new type payload => do newInstance type (← payload.eval user scope)
  | .divide entry left right =>
    withOperands (left.eval user scope) (right.eval user scope) (divide user entry)
  | .divideToTruth entry left right =>
    Value.bool <$>
      withOperands (left.eval user scope) (right.eval user scope) (divideTakingPending user entry)
  | .raise failure => throw failure
  | .select subject branches => do
    let object ← inspect (← subject.eval user scope) Machine.toObject
    branches.eval user scope object
  | .ifInstance subject type yes no => do
    let found ← inspect (← subject.eval user scope) Machine.typeOf
    if found.isSubtypeOf type then yes.eval user scope else no.eval user scope
  | .attempt body kind handler =>
    tryCatch (body.eval user scope) fun failure =>
      if failure.isCaughtBy kind then handler.eval user scope else throw failure

def Branches.eval (user : UserSlots) (scope : Scope) (object : Object) : Branches → MachineM Value
  | .otherwise value => value.eval user scope
  | .case number value rest =>
    if isInt object number then value.eval user scope else rest.eval user scope object

end

mutual

def CoerceExpr.eval (user : UserSlots) (scope : Scope) :
    CoerceExpr → MachineM (Option (Value × Value))
  | .decline => return none
  | .pair own other => some <$> both (own.eval user scope) (other.eval user scope)
  | .select subject branches => do
    let object ← inspect (← subject.eval user scope) Machine.toObject
    branches.eval user scope object
  | .ifInstance subject type yes no => do
    let found ← inspect (← subject.eval user scope) Machine.typeOf
    if found.isSubtypeOf type then yes.eval user scope else no.eval user scope
  | .fail failing => do
    release (← failing.eval user scope)
    return none

def CoerceBranches.eval (user : UserSlots) (scope : Scope) (object : Object) :
    CoerceBranches → MachineM (Option (Value × Value))
  | .otherwise value => value.eval user scope
  | .case number value rest =>
    if isInt object number then value.eval user scope else rest.eval user scope object

end

/-- Slots that nest too deep, or that nothing defines. -/
def slotUnavailable : Failure := .internal "slot calls nested too deep"

/-- A part of the scripts of a user type. -/
def scriptOf (scripts : List SlotScripts) (part : SlotScripts → Option α) (definer : Nat) :
    Option α :=
  scripts[definer]?.bind part

/-- The slots of scripts, where at most so many slot calls are nested. -/
def UserSlots.ofScripts (scripts : List SlotScripts) (bindings : List (String × Value)) :
    Nat → UserSlots
  | 0 =>
    { divide := fun _ _ _ => throw slotUnavailable
      coerce := fun _ _ _ => throw slotUnavailable
      truth := fun _ _ => throw slotUnavailable }
  | nesting + 1 =>
    { divide := fun definer lhs rhs =>
        match scriptOf scripts (·.divide) definer with
        | some script =>
          script.eval (ofScripts scripts bindings nesting) ⟨some (lhs, rhs), bindings⟩
        | none => throw slotUnavailable
      coerce := fun definer own other =>
        match scriptOf scripts (·.coerce) definer with
        | some script =>
          script.eval (ofScripts scripts bindings nesting) ⟨some (own, other), bindings⟩
        | none => throw slotUnavailable
      truth := fun definer value =>
        match scriptOf scripts (·.truth) definer with
        | some script => do
          let inner := ofScripts scripts bindings nesting
          let answer ← script.eval inner ⟨some (value, value), bindings⟩
          truthOfOwned inner answer
        | none => throw slotUnavailable }

end FloorDivision
