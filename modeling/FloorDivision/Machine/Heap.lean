import FloorDivision.Budget
import FloorDivision.Machine.ObjectType
import FloorDivision.Object

/-!
# Values and the heap that they refer to

Small values are held directly, integers of any size and instances live in a heap of cells that
count the references to them.  A cell whose last reference goes is freed and may be used again, so
a reference means something only while its cell is live.

* `Heap.allocate` — a new cell with one reference, in the cell freed last if there is one.  A
  refused allocation changes nothing.
* `Heap.retain`, `Heap.release` — one reference more, one less.  A freed instance releases its
  payload.
* `Heap.numeric?` — the number that a value stands for, instances standing for their payload's.

References that are not live are passed over by every operation.
-/

namespace FloorDivision

/-- A value as operand or result: held directly, or a reference to a cell. -/
inductive Value where
  | none
  | notImplemented
  | bool (value : Bool)
  | int (value : Int64)
  | float (value : Double)
  | ref (id : Nat)
deriving DecidableEq

namespace Value

def isNotImplemented : Value → Bool
  | .notImplemented => true
  | _ => false

/-- The cell that the value refers to. -/
def ref? : Value → Option Nat
  | .ref id => some id
  | _ => .none

end Value

/-- What a cell holds. -/
inductive Content where
  | long (value : Int)
  /-- An instance of a user type; an instance that stands for a number has it as payload. -/
  | instanceOf (type : ObjectType) (payload : Value)
deriving DecidableEq

namespace Content

/-- The bytes charged for the content. -/
def size : Content → UInt64
  | .long value => .ofNat (longSize value)
  | .instanceOf .. => 24

/-- The cell that the content holds a reference to. -/
def child? : Content → Option Nat
  | .long _ => none
  | .instanceOf _ payload => payload.ref?

end Content

/-- A live cell. -/
structure Cell where
  references : Nat
  content : Content
deriving DecidableEq

/-- Cells, the free ones among them in the order in which they are used again, and the account. -/
structure Heap where
  cells : Array (Option Cell) := #[]
  free : List Nat := []
  budget : Meter

namespace Heap

/-- The live cell of a reference. -/
def cell? (heap : Heap) (id : Nat) : Option Cell := heap.cells[id]?.join

def content? (heap : Heap) (id : Nat) : Option Content := (heap.cell? id).map (·.content)

/-- Puts a cell in its place, or takes it away. -/
def put (heap : Heap) (id : Nat) (cell : Option Cell) : Heap :=
  { heap with cells := heap.cells.setIfInBounds id cell }

/-- Stores a content in a cell of its own. -/
def allocate (content : Content) (heap : Heap) : Except Refusal (Nat × Heap) :=
  match heap.budget.charge content.size with
  | .error refusal => .error refusal
  | .ok budget =>
    match heap.free with
    | id :: free => .ok (id, { heap.put id (some ⟨1, content⟩) with free, budget })
    | [] =>
      .ok (heap.cells.size, { heap with cells := heap.cells.push (some ⟨1, content⟩), budget })

/-- Counts one reference more. -/
def retain (id : Nat) (heap : Heap) : Heap :=
  match heap.cell? id with
  | some cell => heap.put id (some { cell with references := cell.references + 1 })
  | none => heap

/-- Takes a cell without references away. -/
def discard (id : Nat) (content : Content) (heap : Heap) : Heap :=
  { heap.put id none with
    free := id :: heap.free, budget := heap.budget.refund content.size }

/-- Counts one reference less, and goes on with the child of a cell that is freed. -/
def releaseLoop : Nat → Nat → Heap → Heap
  | 0, _, heap => heap
  | fuel + 1, id, heap =>
    match heap.cell? id with
    | none => heap
    | some cell =>
      if 1 < cell.references then
        heap.put id (some { cell with references := cell.references - 1 })
      else
        match cell.content.child? with
        | some child => releaseLoop fuel child (heap.discard id cell.content)
        | none => heap.discard id cell.content

/-- Counts one reference less; each round but the last frees one of the cells. -/
def release (id : Nat) (heap : Heap) : Heap := releaseLoop heap.cells.size id heap

def retainValue (value : Value) (heap : Heap) : Heap :=
  match value with
  | .ref id => heap.retain id
  | _ => heap

def releaseValue (value : Value) (heap : Heap) : Heap :=
  match value with
  | .ref id => heap.release id
  | _ => heap

/-- The live cells. -/
def live (heap : Heap) : List Cell := heap.cells.toList.filterMap (·)

end Heap

/-- A number as division sees it. -/
inductive Numeric where
  | int (value : Int64)
  | long (value : Int)
  | float (value : Double)
deriving DecidableEq

namespace Numeric

/-- An integer of either kind. -/
def integer? : Numeric → Option Int
  | .int value => some value.toInt
  | .long value => some value
  | .float _ => none

end Numeric

namespace Heap

/-- The number that a value stands for, through at most `fuel` instances. -/
def numericLoop (heap : Heap) : Nat → Value → Option Numeric
  | _, .none | _, .notImplemented => none
  | _, .bool value => some (.int (if value then 1 else 0))
  | _, .int value => some (.int value)
  | _, .float value => some (.float value)
  | 0, .ref _ => none
  | fuel + 1, .ref id =>
    match heap.content? id with
    | some (.long value) => some (.long value)
    | some (.instanceOf _ payload) => heap.numericLoop fuel payload
    | none => none

/-- The number that a value stands for; there are no more instances than cells. -/
def numeric? (heap : Heap) (value : Value) : Option Numeric :=
  heap.numericLoop heap.cells.size value

end Heap

end FloorDivision
