import FloorDivision.Machine.Basic
import FloorDivision.Script.Expr

/-!
# Steps of a session and what they answer

* `Step` — something that is done with a machine and named values.
* `Reply` — what a step shows.
* `Answer` — the reply together with the state that the step leaves.
-/

namespace FloorDivision

/-- In which form a division is asked for. -/
inductive DivisionForm where
  /-- The quotient, which may be named. -/
  | quotient (into : Option String)
  /-- The truth of the quotient or its failure. -/
  | truth
  /-- The truth of the quotient, a failure being kept by the machine. -/
  | pendingTruth

inductive Step where
  | set (name : String) (expr : Expr)
  | drop (name : String)
  | divide (entry : EntryPoint) (form : DivisionForm) (left right : Expr)
  | view (expr : Expr)
  | isTrue (expr : Expr)
  | isExact (expr : Expr)
  | heapId (expr : Expr)
  | isNotImplemented (expr : Expr)
  | pending
  | takePending
  | setPending (expr : Expr)
  | level
  | config
  | kindType (kind : NumberKind)
  | describeType (type : ObjectType)
  | compareTypes (left right : ObjectType)
  | setTracer (tracer : Tracer)
  | events
  | clearEvents
  | report

/-- A value as it is shown. -/
structure ValueView where
  object : Object
  repr : String
  typeName : String
  references : Option Nat

/-- A type as it is shown. -/
structure TypeView where
  name : String
  baseName : Option String
  ancestorNames : List String
  isNewStyle : Bool
  /-- As the machine's level has it. -/
  isNewStyleHere : Bool
  hasSlots : List Bool
  description : String

/-- How two types compare. -/
structure TypeComparison where
  leftIsSubtype : Bool
  rightIsSubtype : Bool
  sameDivide : Bool
  sameCoerce : Bool
  sameTruth : Bool

inductive Reply where
  | nothing
  | value (view : ValueView)
  | failure (failure : Failure)
  | bool (value : Bool)
  | bools (values : List Bool)
  /-- A truth, or none where there was a failure. -/
  | pendingTruth (truth : Option Bool)
  | number (value : Nat)
  | text (value : String)
  | type (view : TypeView)
  | comparison (result : TypeComparison)
  | previousEvents (events : Option (Array Event))
  | events (events : Array Event)
  | report (profile : Profile)

/-- The state of a heap in numbers. -/
structure HeapView where
  live : Nat
  free : Nat
  total : Nat
  longs : Nat
  instances : Nat
  allocations : Option UInt64
  liveBytes : Option UInt64

structure Answer where
  reply : Reply
  /-- The slots of user types that were called. -/
  calls : List SlotCall
  heap : HeapView
  /-- What a log printed. -/
  printed : String

namespace Heap

/-- The state of the heap in numbers. -/
def view (heap : Heap) : HeapView :=
  let live := heap.live
  let longs := live.countP fun cell => match cell.content with
    | .long _ => true
    | .instanceOf .. => false
  { live := live.length
    free := heap.free.length
    total := heap.cells.size
    longs
    instances := live.length - longs
    allocations := heap.budget.allocations?
    liveBytes := heap.budget.liveBytes? }

end Heap

end FloorDivision
