import FloorDivision.Machine.ObjectType

/-!
# Types of a session

Types are declared one after the other under keys.  A type may build on those before it, and on
the builtin types of the session's level.

* `TypeSpec` — a declaration.
* `TypeTable.ofSpecs` — the types that a list of declarations leads to.
-/

namespace FloorDivision

/-- The declaration of a user type. -/
structure TypeSpec where
  key : String
  name : String
  /-- The key of the type that this one derives from. -/
  base : Option String := none
  isClassic : Bool := false
  /-- Whether the type defines the slot. -/
  definesDivide : Bool := false
  /-- The key of a type whose slot this one has as its own. -/
  divideOf : Option String := none
  definesCoerce : Bool := false
  definesTruth : Bool := false

/-- Types by their keys. -/
abbrev TypeTable := List (String × ObjectType)

namespace TypeTable

/-- The types that are there without being declared. -/
def builtin (level : Level) : TypeTable :=
  [("object", .object), ("NoneType", .noneType), ("NotImplementedType", .notImplementedType),
    ("long", .number level .long), ("float", .number level .float), ("bool", .bool level)] ++
  if level.hasNativeInt then [("int", .number level .int)] else []

/-- The slots that a declaration sets, its number telling its own slots from others'. -/
def ownSlots (table : TypeTable) (index : Nat) (spec : TypeSpec) : Slots where
  divide :=
    match spec.divideOf with
    | some key => (List.lookup key table).bind (·.slots.divide)
    | none => if spec.definesDivide then some (.user index) else none
  coerce := if spec.definesCoerce then some (.user index) else none
  truth := if spec.definesTruth then some (.user index) else none

/-- The table with one type more. -/
def declare (table : TypeTable) (index : Nat) (spec : TypeSpec) : TypeTable :=
  let entry : TypeEntry :=
    { id := .user index, name := spec.name, isClassic := spec.isClassic,
      slots := ownSlots table index spec }
  (spec.key, .declare entry (spec.base.bind fun key => List.lookup key table)) :: table

/-- The types that declarations lead to, in their order. -/
def ofSpecs (level : Level) (specs : List TypeSpec) : TypeTable :=
  specs.zipIdx.foldl (fun table (spec, index) => table.declare index spec) (builtin level)

end TypeTable

end FloorDivision
