import FloorDivision.Level

/-!
# Events of a division

* `Side` — the left or the right operand.
* `TracedShape` — the name by which a tracer knows the shape of an operand.
* `Event` — a decision that a division took, and its line in a readable log.
-/

namespace FloorDivision

/-- Which operand an event is about. -/
inductive Side where
  | left
  | right
deriving DecidableEq, Repr

def Side.name : Side → String
  | .left => "left"
  | .right => "right"

/-- The name by which a tracer knows the shape of an operand.  Divisions tell the names of shapes,
while a tracer may be told any. -/
structure TracedShape where
  name : String
deriving DecidableEq, Repr

def Shape.traced (shape : Shape) : TracedShape := ⟨shape.name⟩

instance : Coe Shape TracedShape := ⟨Shape.traced⟩

/-- A decision that a division took. -/
inductive Event where
  /-- A division of operands of these shapes starts, nested to this depth. -/
  | dispatch (left right : TracedShape) (depth : Nat)
  /-- A native computation takes both operands. -/
  | fastPath (kind : NumberKind)
  /-- The quotient of machine integers needs an integer of any size. -/
  | escalate
  | slotCall (side : Side)
  | slotDeclined (side : Side)
  | coerce (side : Side) (accepted : Bool)
  /-- Nothing took operands of types with these names. -/
  | unsupported (left right : String)
deriving DecidableEq, Repr

/-- The event as a line of a log. -/
def Event.line : Event → String
  | .dispatch left right depth =>
    s!">>> FLOORDIV {left.name} // {right.name}   depth={depth}"
  | .fastPath kind => s!"  +++ fast path {kind.name}"
  | .escalate => "  +++ int overflow, escalating to long"
  | .slotCall side => s!"  ... slot {side.name}"
  | .slotDeclined side => s!"  ... slot {side.name} declined"
  | .coerce side accepted =>
    s!"  ... coerce {side.name}: " ++ (if accepted then "coerced" else "declined")
  | .unsupported left right => s!"  !!! UNSUPPORTED '{left}' and '{right}'"

end FloorDivision
