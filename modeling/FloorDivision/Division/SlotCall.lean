import FloorDivision.Machine.BuiltinSlot

/-!
# Calling slots

What the slots of user types do is not known to division: it is given a `UserSlots`, which has a
computation for each of them, and notes every call in the machine's journal.

* `callDivide`, `callCoerce`, `callTruth` — run a slot, builtin or not.
* `isTrue` — the truth of a value through its type's slot.
-/

namespace FloorDivision

/-- What the slots of user types do, by the number of the type that defines them. -/
structure UserSlots where
  divide : Nat → Value → Value → MachineM Value
  /-- Takes the operand of the slot's own type first, and answers in this order too. -/
  coerce : Nat → Value → Value → MachineM (Option (Value × Value))
  truth : Nat → Value → MachineM Bool

open MachineM

def callDivide (user : UserSlots) (slot : DivideSlot) (lhs rhs : Value) : MachineM Value :=
  match slot with
  | .builtin kind => BuiltinSlot.divide kind lhs rhs
  | .user definer => do
    note ⟨definer, .divide, [lhs, rhs]⟩
    user.divide definer lhs rhs

def callCoerce (user : UserSlots) (slot : CoerceSlot) (own other : Value) :
    MachineM (Option (Value × Value)) :=
  match slot with
  | .builtin kind => BuiltinSlot.coerce kind own other
  | .user definer => do
    note ⟨definer, .coerce, [own, other]⟩
    user.coerce definer own other

def callTruth (user : UserSlots) (slot : TruthSlot) (value : Value) : MachineM Bool :=
  match slot with
  | .never => return false
  | .builtin _ => BuiltinSlot.truth value
  | .user definer => do
    note ⟨definer, .truth, [value]⟩
    user.truth definer value

/-- Whether a value is true; values of types without a say in it are. -/
def isTrue (user : UserSlots) (value : Value) : MachineM Bool := do
  match ((← get).typeOf value).slots.truth with
  | some slot => callTruth user slot value
  | none => return true

end FloorDivision
