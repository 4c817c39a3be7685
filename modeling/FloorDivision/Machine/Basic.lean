import FloorDivision.Config
import FloorDivision.Machine.Heap
import FloorDivision.Trace.Tracer

/-!
# The machine that divisions run on

* `Machine` — heap, tracer, the failure kept for later, the nesting of divisions, and the journal
  of calls into user types.
* `MachineM` — a computation on a machine.  One that fails leaves the machine as it has become, so
  what was acquired before has to be released on failure too: `releasing` does that.
* `Machine.typeOf`, `Machine.isExact`, `Machine.toObject` — what a value is.
-/

namespace FloorDivision

/-- Which slot of a user type was called. -/
inductive SlotRole where
  | divide
  | coerce
  | truth
deriving DecidableEq, Repr

/-- A call into a user type: whose slot, which one, and its operands. -/
structure SlotCall where
  definer : Nat
  role : SlotRole
  operands : List Value
deriving DecidableEq

structure Machine where
  config : Config
  heap : Heap
  tracer : Tracer := .silent
  /-- The failure that a caller who only learned that there was one may still ask for. -/
  pending : Option Failure := none
  /-- How many divisions are under way. -/
  depth : Nat := 0
  /-- The calls into user types, in order. -/
  journal : Array SlotCall := #[]

/-- A computation on a machine that may fail. -/
abbrev MachineM := ExceptT Failure (StateM Machine)

namespace Machine

/-- A machine without values. -/
def start (config : Config) (tracer : Tracer := .silent) : Machine where
  config := config
  heap := { budget := .ofLimits config.limits }
  tracer := tracer

def level (machine : Machine) : Level := machine.config.level

/-- The type of a value. -/
def typeOf (machine : Machine) : Value → ObjectType
  | .none => .noneType
  | .notImplemented => .notImplementedType
  | .bool _ => .bool machine.level
  | .int _ => .smallInt machine.level
  | .float _ => .number machine.level .float
  | .ref id =>
    match machine.heap.content? id with
    | some (.long _) => .number machine.level .long
    | some (.instanceOf type _) => type
    | none => .object

/-- Whether a value belongs to a kind of number itself and not to a type derived from it. -/
def isExact (machine : Machine) (value : Value) (kind : NumberKind) : Bool :=
  match kind, value with
  | .int, .int _ => machine.level.hasNativeInt
  | .long, .int _ => !machine.level.hasNativeInt
  | .long, .ref id =>
    match machine.heap.content? id with
    | some (.long _) => true
    | _ => false
  | .float, .float _ => true
  | _, _ => false

/-- An integer of any size as it is read out: a modern one is an `int` if it fits. -/
def longObject (level : Level) (n : Int) : Object :=
  if level = .modern ∧ (Int64.ofInt n).toInt = n then .int (.ofInt n) else .long n

/-- A value as an object outside the machine, an instance by its type's name. -/
def toObject (machine : Machine) : Value → Object
  | .none => .none
  | .notImplemented => .notImplemented
  | .bool value => .bool value
  | .int value => .int value
  | .float value => .float value
  | .ref id =>
    match machine.heap.content? id with
    | some (.long n) => longObject machine.level n
    | some (.instanceOf type _) => .instanceOf type.name
    | none => .none

def repr (machine : Machine) (value : Value) : String := (machine.toObject value).repr machine.level

/-- How many references there are to the cell of a value. -/
def references? (machine : Machine) (value : Value) : Option Nat :=
  value.ref?.bind fun id => (machine.heap.cell? id).map (·.references)

def observe (event : Event) (machine : Machine) : Machine :=
  { machine with tracer := machine.tracer.observe event }

def releaseValue (value : Value) (machine : Machine) : Machine :=
  { machine with heap := machine.heap.releaseValue value }

def retainValue (value : Value) (machine : Machine) : Machine :=
  { machine with heap := machine.heap.retainValue value }

end Machine

namespace MachineM

/-- Tells the tracer an event. -/
def observe (event : Event) : MachineM Unit := modify (·.observe event)

/-- Gives one reference back. -/
def release (value : Value) : MachineM Unit := modify (·.releaseValue value)

/-- A new reference to the same value. -/
def retain (value : Value) : MachineM Value := do
  modify (·.retainValue value)
  return value

/-- Does something to the machine once an action is over, whether it failed or not. -/
def andThen (action : MachineM α) (cleanUp : Machine → Machine) : MachineM α := fun machine =>
  let (result, machine) := action machine
  (result, cleanUp machine)

/-- Gives a reference back once an action is over. -/
def releasing (value : Value) (action : MachineM α) : MachineM α :=
  action.andThen (·.releaseValue value)

/-- Gives two references back once an action is over, the first one first. -/
def releasingBoth (first second : Value) (action : MachineM α) : MachineM α :=
  action.andThen fun machine => (machine.releaseValue first).releaseValue second

/-- Gives a reference back if an action fails. -/
def releasingOnFailure (value : Value) (action : MachineM α) : MachineM α := fun machine =>
  match action machine with
  | (.ok a, machine) => (.ok a, machine)
  | (.error failure, machine) => (.error failure, machine.releaseValue value)

/-- Two values in turn; if the second fails the first is given back. -/
def both (first second : MachineM Value) : MachineM (Value × Value) := do
  let a ← first
  let b ← releasingOnFailure a second
  return (a, b)

/-- Puts a content into a cell of its own. -/
def allocate (content : Content) : MachineM Value := fun machine =>
  match machine.heap.allocate content with
  | .ok (id, heap) => (.ok (.ref id), { machine with heap })
  | .error refusal => (.error refusal.failure, machine)

/-- An integer of any size: under the modern level one that fits a machine word is held directly,
under the legacy level none is. -/
def newLong (n : Int) : MachineM Value := do
  if (← get).level = .modern ∧ (Int64.ofInt n).toInt = n then return .int (.ofInt n)
  else allocate (.long n)

/--
An instance that takes over the reference to its payload.  If the instance is refused that
reference is not given back.
-/
def newInstance (type : ObjectType) (payload : Value) : MachineM Value :=
  allocate (.instanceOf type payload)

/-- Brings an object into the machine. -/
def ofObject : Object → MachineM Value
  | .none => return .none
  | .notImplemented => return .notImplemented
  | .bool value => return .bool value
  | .int value => return .int value
  | .long n => newLong n
  | .float value => return .float value
  | .instanceOf typeName => throw (.raised (.notConstructible typeName))

/-- Notes a call into a user type. -/
def note (call : SlotCall) : MachineM Unit :=
  modify fun machine => { machine with journal := machine.journal.push call }

/-- Begins a division inside those under way and tells how deep it is nested. -/
def enter : MachineM Nat := fun machine =>
  match machine.heap.budget.checkDepth machine.depth with
  | .ok () => (.ok (machine.depth + 1), { machine with depth := machine.depth + 1 })
  | .error refusal => (.error refusal.failure, machine)

/-- Ends the innermost division once an action is over. -/
def leaving (action : MachineM α) : MachineM α :=
  action.andThen fun machine => { machine with depth := machine.depth - 1 }

end MachineM

end FloorDivision
