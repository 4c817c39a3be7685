import FloorDivision.Machine.Basic

/-!
# Entry points

An entry point is a division specialised for a level and for what is known of its operands.

* `EntryPoint.name`, `EntryPoint.ofName?` — `"legacy::int_object"` and the like.
* `EntryPoint.Fits` — the operands are what the entry point takes them for.
-/

namespace FloorDivision

/-- A division for a level and two shapes that exist there. -/
structure EntryPoint where
  level : Level
  left : Shape
  right : Shape
  left_exists : left.existsAt level = true := by decide
  right_exists : right.existsAt level = true := by decide
deriving DecidableEq

namespace EntryPoint

def name (entry : EntryPoint) : String :=
  s!"{entry.level.name}::{entry.left.name}_{entry.right.name}"

/-- The entry point for two shapes, if both exist at the level. -/
def ofShapes? (level : Level) (left right : Shape) : Option EntryPoint :=
  if hl : left.existsAt level = true then
    if hr : right.existsAt level = true then some ⟨level, left, right, hl, hr⟩ else none
  else none

def all : List EntryPoint :=
  Level.all.flatMap fun level =>
    Shape.all.flatMap fun left => Shape.all.filterMap (ofShapes? level left)

def ofName? (text : String) : Option EntryPoint := all.find? (·.name == text)

/-- The entry point that nothing is known for. -/
def generic (level : Level) : EntryPoint := ⟨level, .unknown, .unknown, rfl, rfl⟩

/-- Whether both kinds are known. -/
def bothKnown (entry : EntryPoint) : Bool := entry.left.kind?.isSome && entry.right.kind?.isSome

end EntryPoint

/-- An operand of a known shape is exactly of that kind. -/
def Shape.Fits (machine : Machine) (shape : Shape) (value : Value) : Prop :=
  ∀ kind, shape = .known kind → machine.isExact value kind = true

/-- The operands are what the entry point takes them for. -/
def EntryPoint.Fits (entry : EntryPoint) (machine : Machine) (lhs rhs : Value) : Prop :=
  entry.left.Fits machine lhs ∧ entry.right.Fits machine rhs

end FloorDivision
