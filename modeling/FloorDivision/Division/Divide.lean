import FloorDivision.Division.FastPath
import FloorDivision.Division.SlotOrder

/-!
# Floor division

* `divide` — the quotient of two operands as a new reference.
* `divideToTruth` — whether the quotient is true, the quotient being given back.
* `divideToPending` — the same for callers that only learn that there was a failure, which stays
  with the machine; `divideTakingPending` raises it after all.

All go through `divideWith`: a machine of another level is refused, then a nesting beyond the
limit, and only then does anything happen.
-/

namespace FloorDivision

open MachineM

/-- The machine has another level than the entry point. -/
def levelMismatch (expected actual : Level) : Failure :=
  .internal (s!"floor division instantiated for the {expected.name} level called on a " ++
    s!"{actual.name} runtime")

/-- Divides and hands a native quotient or the value of a slot on, inside the division. -/
def divideWith (user : UserSlots) (entry : EntryPoint) (native : Quotient → MachineM α)
    (generic : Value → MachineM α) (lhs rhs : Value) : MachineM α := do
  let level := (← get).level
  if level ≠ entry.level then throw (levelMismatch entry.level level)
  let depth ← enter
  leaving do
    observe (.dispatch entry.left entry.right depth)
    match fastKind? entry (← get) lhs rhs with
    | some kind => native (← divideNatively kind lhs rhs)
    | none => generic (← divideBySlots user entry lhs rhs)

/-- The quotient of two operands, a new reference. -/
def divide (user : UserSlots) (entry : EntryPoint) : Value → Value → MachineM Value :=
  divideWith user entry Quotient.toValue pure

/-- Whether a value is true, the value being given back. -/
def truthOfOwned (user : UserSlots) (value : Value) : MachineM Bool :=
  releasing value (isTrue user value)

/-- An integer of any size becomes a value first, so that limits refuse it here as in `divide`. -/
def truthOfQuotient (user : UserSlots) : Quotient → MachineM Bool
  | .long n => do truthOfOwned user (← newLong n)
  | quotient => return quotient.isTrue

/-- Whether the quotient of two operands is true. -/
def divideToTruth (user : UserSlots) (entry : EntryPoint) : Value → Value → MachineM Bool :=
  divideWith user entry (truthOfQuotient user) (truthOfOwned user)

/-- Whether the quotient is true; none for a failure, which replaces the one kept before. -/
def divideToPending (user : UserSlots) (entry : EntryPoint) (lhs rhs : Value) :
    StateM Machine (Option Bool) := do
  match ← (divideToTruth user entry lhs rhs).run with
  | .ok truth => return some truth
  | .error failure =>
    modify ({ · with pending := some failure })
    return none

/-- The failure that is kept, which is kept no longer. -/
def takePending : StateM Machine (Option Failure) := do
  let pending := (← get).pending
  modify ({ · with pending := none })
  return pending

/-- Whether the quotient is true, by way of the failure that is kept, which is raised. -/
def divideTakingPending (user : UserSlots) (entry : EntryPoint) (lhs rhs : Value) :
    MachineM Bool := do
  match ← divideToPending user entry lhs rhs with
  | some truth => return truth
  | none =>
    match ← takePending with
    | some failure => throw failure
    | none => throw (.internal "failure reported without a pending error")

end FloorDivision
