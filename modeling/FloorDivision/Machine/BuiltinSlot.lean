import FloorDivision.Machine.Basic
import FloorDivision.Number.Floor
import FloorDivision.Number.Long

/-!
# Slots of the builtin numbers

A builtin slot takes the numbers that its operands stand for, instances of derived types included,
and declines operands that it has no use for.

* `BuiltinSlot.divide` — `int` takes machine integers, `long` integers, `float` numbers.
* `BuiltinSlot.coerce` — the same with the slot's own operand first, the other one widened.
* `BuiltinSlot.truth` — whether a number is not zero.
-/

namespace FloorDivision.BuiltinSlot

open MachineM

def divideInts (lhs rhs : Value) : MachineM Value := do
  let heap := (← get).heap
  match heap.numeric? lhs, heap.numeric? rhs with
  | some (.int a), some (.int b) =>
    match intFloorDivide a b with
    | .ok (some quotient) => return .int quotient
    | .ok none => newLong (intFloorDivideWide a b)
    | .error _ => throw (.raised .integerDivisionByZero)
  | _, _ => return .notImplemented

def divideLongs (lhs rhs : Value) : MachineM Value := do
  let machine ← get
  match (machine.heap.numeric? lhs).bind (·.integer?), (machine.heap.numeric? rhs).bind (·.integer?)
  with
  | some a, some b =>
    match longFloorDivide a b with
    | .ok quotient => newLong quotient
    | .error _ => throw (.raised (.longDivisionByZero machine.level))
  | _, _ => return .notImplemented

/-- The double that a number is taken for; it has to be a finite one for an integer. -/
def toDouble? (value : Value) : MachineM (Option Double) := do
  let machine ← get
  match machine.heap.numeric? value with
  | some (.float x) => return some x
  | some (.int n) => return some (.ofInt n.toInt)
  | some (.long n) =>
    match Double.ofLong? n with
    | some x => return some x
    | none => throw (.raised (.integerTooLargeForFloat machine.level))
  | none => return none

def divideFloats (lhs rhs : Value) : MachineM Value := do
  let some a ← toDouble? lhs | return .notImplemented
  let some b ← toDouble? rhs | return .notImplemented
  match floatFloorDivide a b with
  | .ok quotient => return .float quotient
  | .error _ => throw (.raised (.floatDivisionByZero (← get).level))

/-- Divides two operands or answers that it does not. -/
def divide : NumberKind → Value → Value → MachineM Value
  | .int => divideInts
  | .long => divideLongs
  | .float => divideFloats

def coerceInts (own other : Value) : MachineM (Option (Value × Value)) := do
  match (← get).heap.numeric? other with
  | some (.int _) =>
    let own ← retain own
    let other ← retain other
    return some (own, other)
  | _ => return none

def coerceLongs (own other : Value) : MachineM (Option (Value × Value)) := do
  match (← get).heap.numeric? other with
  | some (.int n) =>
    let other ← newLong n.toInt
    let own ← retain own
    return some (own, other)
  | some (.long _) =>
    let other ← retain other
    let own ← retain own
    return some (own, other)
  | _ => return none

def coerceFloats (own other : Value) : MachineM (Option (Value × Value)) := do
  match (← get).heap.numeric? other with
  | some (.float _) =>
    let other ← retain other
    let own ← retain own
    return some (own, other)
  | some _ =>
    let some x ← toDouble? other | return none
    let own ← retain own
    return some (own, .float x)
  | none => return none

/-- New references to both operands as values of one type, the slot's own operand first. -/
def coerce : NumberKind → Value → Value → MachineM (Option (Value × Value))
  | .int => coerceInts
  | .long => coerceLongs
  | .float => coerceFloats

/-- Whether a value stands for something else than zero. -/
def truth (value : Value) : MachineM Bool := do
  match (← get).heap.numeric? value with
  | some (.int n) => return n != 0
  | some (.long n) => return n != 0
  | some (.float x) => return !x.isZero
  | none => return true

end FloorDivision.BuiltinSlot
